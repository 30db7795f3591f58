/-
# Directories and paths

A small library about the files that a process sees.  A directory is a list of entries with
different names.  `FileSystem.walk` follows the components of a path, and `FileSystem.opendir`
and `FileSystem.unlink` are the calls of that name, with a current directory.

A path that is a bare name is looked up in the current directory, whatever directory the name
was read from.  `FileSystem.lookup_unlinkNames` says what is left when a list of bare names has
been unlinked.
-/
import Mathlib.Data.List.Nodup
import Mathlib.Logic.Function.Basic
import NagiosTrapd.Words

namespace FileTree

open Words

/-! ## Directories -/

/-- A name that an entry of a directory can have. -/
structure IsName (name : List Char) : Prop where
  isWord : IsWord '/' name
  ne_dot : name ≠ ['.']
  ne_dotdot : name ≠ ['.', '.']

/-- What an entry stands for; `ι` are the directories. -/
inductive Node (ι : Type*)
  | regular (contents : List Char)
  | directory (dir : ι)
  | symlink (target : List Char)
  | other
  deriving DecidableEq, Repr

/-- The type of an entry, as it is reported when a directory is read. -/
inductive DirentType
  | reg
  | dir
  | lnk
  | other
  | unknown
  deriving DecidableEq, Repr

structure Entry (ι : Type*) where
  name : List Char
  isName : IsName name
  node : Node ι
  /-- The file system reports the type of the entry when the directory is read. -/
  typed : Bool
  /-- The process may remove the entry from its directory. -/
  removable : Bool

/-- The type that is reported. -/
def Entry.dType {ι : Type*} (e : Entry ι) : DirentType :=
  if e.typed then
    match e.node with
    | .regular _ => .reg
    | .directory _ => .dir
    | .symlink _ => .lnk
    | .other => .other
  else .unknown

/-- `unlink` removes the entry: it is not a directory, and may be removed. -/
def Entry.unlinkable {ι : Type*} (e : Entry ι) : Bool :=
  match e.node with
  | .directory _ => false
  | _ => e.removable

/-- A regular file. -/
def Entry.IsRegular {ι : Type*} (e : Entry ι) : Prop := ∃ contents, e.node = .regular contents

theorem Entry.dType_eq_reg_iff {ι : Type*} {e : Entry ι} :
    e.dType = .reg ↔ e.typed = true ∧ e.IsRegular := by
  unfold dType IsRegular
  cases e.typed <;> cases e.node <;> simp

theorem Entry.IsRegular.unlinkable {ι : Type*} {e : Entry ι} (h : e.IsRegular) :
    e.unlinkable = e.removable := by
  obtain ⟨contents, hnode⟩ := h
  unfold Entry.unlinkable
  rw [hnode]

structure Directory (ι : Type*) where
  entries : List (Entry ι)
  nodup : (entries.map Entry.name).Nodup
  /-- The process may read the names of the entries. -/
  readable : Bool
  /-- The process may look up a name. -/
  searchable : Bool

namespace Directory

variable {ι : Type*}

/-- The entry with a name. -/
def find? (d : Directory ι) (name : List Char) : Option (Entry ι) :=
  d.entries.find? fun e => e.name = name

/-- The directory without the entry with a name. -/
def remove (d : Directory ι) (name : List Char) : Directory ι :=
  { d with
    entries := d.entries.filter fun e => e.name ≠ name
    nodup := d.nodup.sublist (List.filter_sublist.map Entry.name) }

/-- There is one entry with a name. -/
theorem find?_eq_some_iff {d : Directory ι} {name : List Char} {e : Entry ι} :
    d.find? name = some e ↔ e ∈ d.entries ∧ e.name = name := by
  have hfound : ∀ {f : Entry ι}, d.find? name = some f → f ∈ d.entries ∧ f.name = name := by
    intro f hf
    have hname := List.find?_some hf
    exact ⟨List.mem_of_find?_eq_some hf, of_decide_eq_true hname⟩
  refine ⟨hfound, ?_⟩
  rintro ⟨he, rfl⟩
  have hsome : (d.find? e.name).isSome := List.find?_isSome.mpr ⟨e, he, decide_eq_true rfl⟩
  obtain ⟨f, hf⟩ := Option.isSome_iff_exists.mp hsome
  obtain ⟨hmem, hname⟩ := hfound hf
  rw [hf, List.inj_on_of_nodup_map d.nodup hmem he hname]

theorem find?_remove (d : Directory ι) (name n : List Char) :
    (d.remove name).find? n = if n = name then none else d.find? n := by
  unfold remove find?
  rw [List.find?_filter]
  split_ifs with hn
  · subst hn
    rw [List.find?_eq_none]
    intro e _
    simp
  · congr 1
    funext e
    by_cases he : e.name = n
    · simp [he, hn]
    · simp [he]

end Directory

/-! ## File systems -/

/-- All directories, the root and the parent of each. -/
structure FileSystem (ι : Type*) where
  root : ι
  parent : ι → ι
  dirs : ι → Directory ι

/-- How many symbolic links a path may lead through. -/
def symlinkLimit : ℕ := 40

namespace FileSystem

variable {ι : Type*}

/-- The entry with a name in a directory. -/
def lookup (fs : FileSystem ι) (d : ι) (name : List Char) : Option (Entry ι) :=
  (fs.dirs d).find? name

/-- Where a path begins. -/
def start (fs : FileSystem ι) (cwd : ι) (path : List Char) : ι :=
  if path.head? = some '/' then fs.root else cwd

/-- Follow components; `next` goes on where one of them is a symbolic link. -/
def walkWith (fs : FileSystem ι) (next : ι → List (List Char) → Option ι) :
    ι → List (List Char) → Option ι
  | d, [] => some d
  | d, c :: cs =>
      if !(fs.dirs d).searchable then none
      else if c = ['.'] then fs.walkWith next d cs
      else if c = ['.', '.'] then fs.walkWith next (fs.parent d) cs
      else
        match (fs.lookup d c).map Entry.node with
        | some (.directory d') => fs.walkWith next d' cs
        | some (.symlink target) => next (fs.start d target) (words '/' target ++ cs)
        | _ => none

/-- Follow components, through so many symbolic links at most. -/
def walk (fs : FileSystem ι) : ℕ → ι → List (List Char) → Option ι
  | 0 => fs.walkWith fun _ _ => none
  | n + 1 => fs.walkWith (fs.walk n)

/-- The directory that is opened. -/
def opendir (fs : FileSystem ι) (cwd : ι) (path : List Char) : Option ι :=
  if path = [] then none
  else
    (fs.walk symlinkLimit (fs.start cwd path) (words '/' path)).filter fun d => (fs.dirs d).readable

/-- The directory and the name of the file that a path means. -/
def locate (fs : FileSystem ι) (cwd : ι) (path : List Char) : Option (ι × List Char) :=
  match (words '/' path).getLast? with
  | none => none
  | some name =>
      if path.getLast? = some '/' ∨ name = ['.'] ∨ name = ['.', '.'] then none
      else
        (fs.walk symlinkLimit (fs.start cwd path) (words '/' path).dropLast).map fun d => (d, name)

/-- A bare name means the entry of the current directory. -/
theorem locate_name {name : List Char} (h : IsName name) (fs : FileSystem ι) (cwd : ι) :
    fs.locate cwd name = some (cwd, name) := by
  have hwords := words_of_isWord h.isWord
  have hlast : name.getLast? ≠ some '/' := fun hc => h.isWord.2 (List.mem_of_getLast? hc)
  have hhead : name.head? ≠ some '/' := fun hc => h.isWord.2 (List.mem_of_head? hc)
  unfold locate
  simp only [hwords, List.getLast?_singleton, hlast, h.ne_dot, h.ne_dotdot, or_self, if_false,
    List.dropLast_singleton]
  rw [start, if_neg hhead]
  rfl

/-- A path, a slash and a name mean the entry of the directory that the path leads to. -/
theorem locate_append {fs : FileSystem ι} {cwd d : ι} {path name : List Char}
    (h : fs.opendir cwd path = some d) (hname : IsName name) :
    fs.locate cwd (path ++ '/' :: name) = some (d, name) := by
  unfold opendir at h
  split_ifs at h with hpath
  have hwalk := (Option.filter_eq_some_iff.mp h).1
  have hwords : words '/' (path ++ '/' :: name) = words '/' path ++ [name] := by
    rw [words_append_sep, words_of_isWord hname.isWord]
  have hlast : (path ++ '/' :: name).getLast? ≠ some '/' := by
    rw [List.getLast?_append_cons, List.getLast?_cons_of_ne_nil hname.isWord.1]
    exact fun hc => hname.isWord.2 (List.mem_of_getLast? hc)
  have hstart : fs.start cwd (path ++ '/' :: name) = fs.start cwd path := by
    rw [start, List.head?_append_of_ne_nil path hpath, start]
  unfold locate
  simp only [hwords, List.getLast?_concat, hlast, hname.ne_dot, hname.ne_dotdot, or_self,
    if_false, List.dropLast_concat, hstart, hwalk, Option.map_some]

variable [DecidableEq ι]

/-- The file system without an entry. -/
def remove (fs : FileSystem ι) (d : ι) (name : List Char) : FileSystem ι :=
  { fs with dirs := Function.update fs.dirs d ((fs.dirs d).remove name) }

/-- What `unlink` leaves; where the call fails it is all there was. -/
def unlink (fs : FileSystem ι) (cwd : ι) (path : List Char) : FileSystem ι :=
  match fs.locate cwd path with
  | none => fs
  | some (d, name) => if (fs.lookup d name).any Entry.unlinkable then fs.remove d name else fs

/-! ## Bare names -/

theorem lookup_remove (fs : FileSystem ι) (d d' : ι) (name n : List Char) :
    (fs.remove d name).lookup d' n = if d' = d ∧ n = name then none else fs.lookup d' n := by
  unfold remove lookup
  by_cases hd : d' = d
  · subst hd
    simp only [Function.update_self, Directory.find?_remove, true_and]
  · simp only [Function.update_of_ne hd, hd, false_and, if_false]

/-- **A bare name is removed from the current directory**, if it is there and `unlink` can
remove it; nothing else is. -/
theorem lookup_unlink_name {name : List Char} (h : IsName name) (fs : FileSystem ι) (cwd d : ι)
    (n : List Char) :
    (fs.unlink cwd name).lookup d n
      = if d = cwd ∧ n = name ∧ (fs.lookup cwd n).any Entry.unlinkable then none
        else fs.lookup d n := by
  unfold unlink
  rw [locate_name h]
  simp only
  by_cases hname : (fs.lookup cwd name).any Entry.unlinkable
  · rw [if_pos hname, lookup_remove]
    by_cases hn : n = name
    · subst hn
      simp [hname]
    · simp [hn]
  · rw [if_neg hname, if_neg]
    rintro ⟨-, rfl, hany⟩
    exact hname hany

/-- Unlink names one after the other. -/
def unlinkNames (fs : FileSystem ι) (cwd : ι) (names : List (List Char)) : FileSystem ι :=
  names.foldl (fun fs name => fs.unlink cwd name) fs

/-- **What is left when bare names have been unlinked**: everything but those of them that the
current directory has and that `unlink` can remove. -/
theorem lookup_unlinkNames {names : List (List Char)} (h : ∀ name ∈ names, IsName name)
    (cwd d : ι) (n : List Char) :
    ∀ fs : FileSystem ι, (fs.unlinkNames cwd names).lookup d n
      = if d = cwd ∧ n ∈ names ∧ (fs.lookup cwd n).any Entry.unlinkable then none
        else fs.lookup d n := by
  induction names with
  | nil => intro fs; simp [unlinkNames]
  | cons name names ih =>
      intro fs
      have hname := h name List.mem_cons_self
      have hrest := ih (fun m hm => h m (List.mem_cons_of_mem name hm)) (fs.unlink cwd name)
      rw [unlinkNames, List.foldl_cons]
      refine hrest.trans ?_
      rw [lookup_unlink_name hname, lookup_unlink_name hname]
      by_cases hd : d = cwd
      · subst hd
        by_cases hany : (fs.lookup d n).any Entry.unlinkable
        · rcases eq_or_ne n name with rfl | hn
          · simp [hany]
          · simp [hany, hn]
        · simp [hany]
      · simp [hd]

end FileSystem

end FileTree
