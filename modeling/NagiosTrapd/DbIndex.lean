/-
# The three indexes of the stored hosts and services

Every stored host, and every stored service, is on three chains at once: by host name, by
address and by command id.  `fetch_indexes` says of any load what a reader of the chains
needs: each chain ends and has exactly the records with its key, newest first, and storing
a further record leaves the chains of other keys alone.
-/
import NagiosTrapd.Db

namespace Trapd

variable {δ : Type}

/-! ## The chains -/

/-- The chain of a host name. -/
def Chains.byHostName (t : Chains δ) (k : Str) : Option (List ℕ) :=
  Chain.chain Node.next_by_host_name t.nodes t.by_host_name k

/-- The chain of an address. -/
def Chains.byHostAddress (t : Chains δ) (k : Str) : Option (List ℕ) :=
  Chain.chain Node.next_by_host_address t.nodes t.by_host_address k

/-- The chain of a command id. -/
def Chains.byCmdId (t : Chains δ) (k : ℤ) : Option (List ℕ) :=
  Chain.chain Node.next_by_cmd_id t.nodes t.by_cmd_id k

/-- All three indexes are sound. -/
structure Chains.Sound (t : Chains δ) : Prop where
  host_name :
    Chain.Sound (fun n => n.host_name.1) Node.next_by_host_name t.nodes t.by_host_name
  host_address :
    Chain.Sound (fun n => n.host_address.1) Node.next_by_host_address t.nodes t.by_host_address
  cmd_id : Chain.Sound (fun n => n.cmd_id) Node.next_by_cmd_id t.nodes t.by_cmd_id

/-- The chains of all keys but those of `b` are the same. -/
structure Chains.SameBut (b : Option (Binding δ)) (t t' : Chains δ) : Prop where
  host_name : ∀ k, (∀ x ∈ b, x.host_name.1 ≠ k) → t'.byHostName k = t.byHostName k
  host_address : ∀ k, (∀ x ∈ b, x.host_address.1 ≠ k) → t'.byHostAddress k = t.byHostAddress k
  cmd_id : ∀ k, (∀ x ∈ b, x.cmd_id ≠ k) → t'.byCmdId k = t.byCmdId k

/-- What the tables carry is all that is needed. -/
theorem Chains.sound (t : Chains δ) : t.Sound :=
  ⟨t.linked_host_name.sound, t.linked_host_address.sound, t.linked_cmd_id.sound⟩

/-- **Storing a row changes no chain of another key.** -/
theorem Chains.sameBut_storeRow (t : Chains δ) (b : Option (Binding δ)) :
    t.SameBut b (t.storeRow b) := by
  cases b with
  | none => exact ⟨fun _ _ => rfl, fun _ _ => rfl, fun _ _ => rfl⟩
  | some b =>
      constructor
      · exact fun k hk =>
          t.linked_host_name.chain_append (t.store b).linked_host_name (hk b rfl)
      · exact fun k hk =>
          t.linked_host_address.chain_append (t.store b).linked_host_address (hk b rfl)
      · exact fun k hk => t.linked_cmd_id.chain_append (t.store b).linked_cmd_id (hk b rfl)

/-- **The indexes of the stored hosts and services**, after any number of rows: the stored
records are those of the rows with a known command, the indexes are sound, and a further
row changes the chains of its own keys only. -/
theorem fetch_indexes (commands : HashTable ℤ Command) :
    (∀ rows : List HostRow,
      (fetchHosts commands rows).nodes.map Node.toBinding = rows.filterMap (fetchHost commands) ∧
      (fetchHosts commands rows).Sound ∧
      ∀ row, (fetchHosts commands rows).SameBut (fetchHost commands row)
        (fetchHosts commands (rows ++ [row]))) ∧
    (∀ rows : List SvcRow,
      (fetchSvcs commands rows).nodes.map Node.toBinding = rows.filterMap (fetchSvc commands) ∧
      (fetchSvcs commands rows).Sound ∧
      ∀ row, (fetchSvcs commands rows).SameBut (fetchSvc commands row)
        (fetchSvcs commands (rows ++ [row]))) := by
  constructor
  · intro rows
    refine ⟨fetchHosts_nodes commands rows, Chains.sound _, fun row => ?_⟩
    have hrow : fetchHosts commands (rows ++ [row])
        = (fetchHosts commands rows).storeRow (fetchHost commands row) := by
      unfold fetchHosts
      rw [List.foldl_append]
      rfl
    rw [hrow]
    exact Chains.sameBut_storeRow _ _
  · intro rows
    refine ⟨fetchSvcs_nodes commands rows, Chains.sound _, fun row => ?_⟩
    have hrow : fetchSvcs commands (rows ++ [row])
        = (fetchSvcs commands rows).storeRow (fetchSvc commands row) := by
      unfold fetchSvcs
      rw [List.foldl_append]
      rfl
    rw [hrow]
    exact Chains.sameBut_storeRow _ _

end Trapd
