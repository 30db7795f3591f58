/-
# The diagnostics pool is cleared (`diagnostics.c`)

When the monitor is terminated, `diagnostics_pool_clear` reads the entries of the pool and
unlinks those that are reported as regular files.  It unlinks them by their bare names, which
are looked up in the current directory.

**Main result:** `pool_clear_iff`: the pool is cleared, and nothing else touched, exactly when
it can be opened and has no regular file, or is the current directory, with regular files that
are all reported as such and may be removed.
-/
import NagiosTrapd.FileTree
import NagiosTrapd.Util

namespace Trapd

open FileTree

variable {ι : Type*}

/-! ## The dumps -/

/-- The file that `diagnostics_write` dumps to. -/
def diagnosticsFile (diagnostics_pool : Str) (pid : ℕ) : Str :=
  diagnostics_pool ++ '/' :: decimal pid

/-- The name of a dump is a number, and so a file name. -/
theorem isName_decimal (pid : ℕ) : IsName (decimal pid) where
  isWord := ⟨decimal_ne_nil _, not_mem_decimal (by decide) (by decide)⟩
  ne_dot h := not_mem_decimal (c := '.') (n := pid) (by decide) (by decide) (by simp [h])
  ne_dotdot h := not_mem_decimal (c := '.') (n := pid) (by decide) (by decide) (by simp [h])

/-- A dump is a file of the pool. -/
theorem locate_diagnosticsFile {fs : FileSystem ι} {cwd pool : ι} {diagnostics_pool : Str}
    (h : fs.opendir cwd diagnostics_pool = some pool) (pid : ℕ) :
    fs.locate cwd (diagnosticsFile diagnostics_pool pid) = some (pool, decimal pid) :=
  FileSystem.locate_append h (isName_decimal pid)

/-! ## The names that are unlinked -/

/-- The entries that are reported as regular files. -/
def clearedNames (d : Directory ι) : List Str :=
  (d.entries.filter fun e => e.dType = .reg).map Entry.name

/-- The names that are cleared are file names. -/
theorem isName_of_mem_clearedNames {d : Directory ι} {name : Str} (h : name ∈ clearedNames d) :
    IsName name := by
  obtain ⟨e, -, rfl⟩ := List.mem_map.mp h
  exact e.isName

/-- They are those of the regular files that `readdir` shows as such. -/
theorem mem_clearedNames {d : Directory ι} {name : Str} :
    name ∈ clearedNames d ↔ ∃ e, d.find? name = some e ∧ e.typed = true ∧ e.IsRegular := by
  simp only [clearedNames, List.mem_map, List.mem_filter, decide_eq_true_eq,
    Entry.dType_eq_reg_iff, Directory.find?_eq_some_iff]
  constructor
  · rintro ⟨e, ⟨he, hreg⟩, rfl⟩
    exact ⟨e, ⟨he, rfl⟩, hreg⟩
  · rintro ⟨e, ⟨he, hname⟩, hreg⟩
    exact ⟨e, ⟨he, hreg⟩, hname⟩

variable [DecidableEq ι]

/-- `diagnostics_pool_clear`: what it leaves; `none` is undefined behaviour, where the pool
cannot be opened and NULL is read. -/
def diagnosticsPoolClear (fs : FileSystem ι) (cwd : ι) (diagnostics_pool : Str) :
    Option (FileSystem ι) :=
  (fs.opendir cwd diagnostics_pool).map fun pool =>
    (fs.dirs pool).entries.foldl (fun fs dir_entry =>
      if dir_entry.dType = .reg then fs.unlink cwd dir_entry.name else fs) fs

/-- All of them are removed, one after the other, in the current directory. -/
theorem diagnosticsPoolClear_eq (fs : FileSystem ι) (cwd : ι) (diagnostics_pool : Str) :
    diagnosticsPoolClear fs cwd diagnostics_pool
      = (fs.opendir cwd diagnostics_pool).map fun pool =>
          fs.unlinkNames cwd (clearedNames (fs.dirs pool)) := by
  unfold diagnosticsPoolClear clearedNames FileSystem.unlinkNames
  simp only [List.foldl_map, List.foldl_filter, decide_eq_true_eq]

/-! ## What clearing the pool means -/

/-- A directory has a regular file with a name. -/
def HasRegular (fs : FileSystem ι) (d : ι) (name : Str) : Prop :=
  ∃ e, fs.lookup d name = some e ∧ e.IsRegular

/-- The regular files of the pool are gone, everything else is as it was; no dump is left. -/
structure PoolCleared (fs fs' : FileSystem ι) (cwd : ι) (diagnostics_pool : Str) (pool : ι) :
    Prop where
  removed {name : Str} : HasRegular fs pool name → fs'.lookup pool name = none
  kept {d : ι} {name : Str} : ¬ (d = pool ∧ HasRegular fs pool name) →
    fs'.lookup d name = fs.lookup d name
  no_dump {pid : ℕ} {d : ι} {name : Str} :
    fs.locate cwd (diagnosticsFile diagnostics_pool pid) = some (d, name) →
      ¬ HasRegular fs' d name

/-- `diagnostics_pool_clear` does its work. -/
def ClearsPool (fs : FileSystem ι) (cwd : ι) (diagnostics_pool : Str) : Prop :=
  ∃ pool fs', fs.opendir cwd diagnostics_pool = some pool ∧
    diagnosticsPoolClear fs cwd diagnostics_pool = some fs' ∧
      PoolCleared fs fs' cwd diagnostics_pool pool

/-- The pool can be opened, and its regular files, if there are any, can be removed by their
bare names: it is the current directory, and each of them is reported as a regular file and may
be removed. -/
def PoolClearable (fs : FileSystem ι) (cwd : ι) (diagnostics_pool : Str) : Prop :=
  ∃ pool, fs.opendir cwd diagnostics_pool = some pool ∧
    ∀ e ∈ (fs.dirs pool).entries, e.IsRegular →
      pool = cwd ∧ e.typed = true ∧ e.removable = true

section

variable {fs : FileSystem ι} {cwd pool : ι}

/-- What is found afterwards. -/
theorem lookup_cleared (d : ι) (name : Str) :
    (fs.unlinkNames cwd (clearedNames (fs.dirs pool))).lookup d name
      = if d = cwd ∧ name ∈ clearedNames (fs.dirs pool) ∧
          (fs.lookup cwd name).any Entry.unlinkable then none
        else fs.lookup d name :=
  FileSystem.lookup_unlinkNames (fun _ => isName_of_mem_clearedNames) cwd d name fs

/-- A regular file of the pool that is removed can be removed by its bare name. -/
theorem removable_of_lookup_cleared {e : Entry ι} (he : e ∈ (fs.dirs pool).entries)
    (hreg : e.IsRegular)
    (hgone : (fs.unlinkNames cwd (clearedNames (fs.dirs pool))).lookup pool e.name = none) :
    pool = cwd ∧ e.typed = true ∧ e.removable = true := by
  have hfind : fs.lookup pool e.name = some e := Directory.find?_eq_some_iff.mpr ⟨he, rfl⟩
  rw [lookup_cleared, hfind] at hgone
  split_ifs at hgone with hcond
  obtain ⟨hcwd, hname, hany⟩ := hcond
  obtain ⟨f, hf, htyped, -⟩ := mem_clearedNames.mp hname
  obtain rfl : e = f := Option.some_inj.mp (hfind.symm.trans hf)
  rw [← hcwd, hfind, Option.any_some, hreg.unlinkable] at hany
  exact ⟨hcwd, htyped, hany⟩

section

variable (h : ∀ e ∈ (fs.dirs pool).entries, e.IsRegular →
  pool = cwd ∧ e.typed = true ∧ e.removable = true)
include h

/-- A regular file of the pool is gone. -/
theorem lookup_cleared_of_regular {name : Str} (hname : HasRegular fs pool name) :
    (fs.unlinkNames cwd (clearedNames (fs.dirs pool))).lookup pool name = none := by
  obtain ⟨e, hfind, hreg⟩ := hname
  obtain ⟨hcwd, htyped, hremovable⟩ := h e (Directory.find?_eq_some_iff.mp hfind).1 hreg
  rw [lookup_cleared, if_pos]
  refine ⟨hcwd, mem_clearedNames.mpr ⟨e, hfind, htyped, hreg⟩, ?_⟩
  rw [← hcwd, hfind, Option.any_some, hreg.unlinkable, hremovable]

/-- Everything else is there. -/
theorem lookup_cleared_of_not_regular {d : ι} {name : Str}
    (hnot : ¬ (d = pool ∧ HasRegular fs pool name)) :
    (fs.unlinkNames cwd (clearedNames (fs.dirs pool))).lookup d name = fs.lookup d name := by
  rw [lookup_cleared, if_neg]
  rintro ⟨rfl, hname, -⟩
  obtain ⟨e, hfind, -, hreg⟩ := mem_clearedNames.mp hname
  have hcwd := (h e (Directory.find?_eq_some_iff.mp hfind).1 hreg).1
  exact hnot ⟨hcwd.symm, e, hfind, hreg⟩

/-- The pool has no regular file left. -/
theorem not_hasRegular_cleared (name : Str) :
    ¬ HasRegular (fs.unlinkNames cwd (clearedNames (fs.dirs pool))) pool name := by
  rintro ⟨e, hfind, hreg⟩
  by_cases hname : HasRegular fs pool name
  · rw [lookup_cleared_of_regular h hname] at hfind
    exact absurd hfind (by simp)
  · rw [lookup_cleared_of_not_regular h fun hand => hname hand.2] at hfind
    exact hname ⟨e, hfind, hreg⟩

end

/-- The pool is cleared by names that are looked up in the current directory. -/
theorem poolCleared_unlinkNames_iff {diagnostics_pool : Str}
    (hopen : fs.opendir cwd diagnostics_pool = some pool) :
    PoolCleared fs (fs.unlinkNames cwd (clearedNames (fs.dirs pool))) cwd diagnostics_pool pool
      ↔ ∀ e ∈ (fs.dirs pool).entries, e.IsRegular →
          pool = cwd ∧ e.typed = true ∧ e.removable = true := by
  constructor
  · intro h e he hreg
    have hfile : HasRegular fs pool e.name :=
      ⟨e, Directory.find?_eq_some_iff.mpr ⟨he, rfl⟩, hreg⟩
    exact removable_of_lookup_cleared he hreg (h.removed hfile)
  · intro h
    refine ⟨lookup_cleared_of_regular h, lookup_cleared_of_not_regular h, ?_⟩
    intro pid d name hlocate
    rw [locate_diagnosticsFile hopen] at hlocate
    obtain ⟨rfl, rfl⟩ := Prod.mk.inj (Option.some_inj.mp hlocate)
    exact not_hasRegular_cleared h (decimal pid)

end

/-- **When the diagnostics pool is cleared**: whenever it can be opened and has no regular file,
or is the current directory and all its regular files can be removed. -/
theorem pool_clear_iff (fs : FileSystem ι) (cwd : ι) (diagnostics_pool : Str) :
    ClearsPool fs cwd diagnostics_pool ↔ PoolClearable fs cwd diagnostics_pool := by
  unfold ClearsPool PoolClearable
  rw [diagnosticsPoolClear_eq]
  apply exists_congr
  intro pool
  constructor
  · rintro ⟨fs', hopen, hclear, hcleared⟩
    rw [hopen, Option.map_some, Option.some_inj] at hclear
    subst hclear
    exact ⟨hopen, (poolCleared_unlinkNames_iff hopen).mp hcleared⟩
  · rintro ⟨hopen, h⟩
    exact ⟨_, hopen, by rw [hopen, Option.map_some], (poolCleared_unlinkNames_iff hopen).mpr h⟩

/-- The root has the directory `pool`, which has the dump `7`. -/
def dumpedFiles : FileSystem Bool where
  root := false
  parent _ := false
  dirs
    | false => ⟨[⟨"pool".toList, ⟨⟨by decide, by decide⟩, by decide, by decide⟩,
        .directory true, true, true⟩], by decide, true, true⟩
    | true => ⟨[⟨['7'], ⟨⟨by decide, by decide⟩, by decide, by decide⟩,
        .regular [], true, true⟩], by decide, true, true⟩

/-- The dump `/pool/7` is there when the pool has been cleared from the root. -/
theorem not_pool_clear :
    ¬ ∀ (fs : FileSystem Bool) (cwd : Bool) (diagnostics_pool : Str),
        ClearsPool fs cwd diagnostics_pool := by
  intro h
  obtain ⟨pool, fs', hopen, hclear, hcleared⟩ := h dumpedFiles false "/pool".toList
  obtain rfl : true = pool := Option.some_inj.mp (Eq.trans (by rfl) hopen)
  have hdump : HasRegular dumpedFiles true ['7'] := ⟨_, rfl, [], rfl⟩
  have hgone := hcleared.removed hdump
  obtain rfl := Option.some_inj.mp hclear
  exact absurd hgone (by decide)

end Trapd
