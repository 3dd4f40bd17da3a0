import AgentPlanning.Proofs.Search.StateTable
import Mathlib.Data.List.Nodup
import Mathlib.Logic.Function.Iterate

/-!
# The Table of Visited States over its Whole Life

A table is used for one search after another. It is emptied before each of them by a new
generation, and a state is inserted by looking it up and writing to the free slot that is found.
Whatever came before, the table is an exact map of what was inserted since it was last empty.
Main statements:

* `Records.insert`, `records_of_clean`: what an insertion and what a new generation preserve;
* `History.records`: hence it holds after any history, by induction on it;
* `isMapOf_of_history`: every look-up finds the node that a state was inserted with, or else a
  slot that was not written.
-/

namespace AgentPlanning

namespace StateTable

/-- A state that was inserted, with its node and the slot that was written. -/
structure Insertion where
  state : WorldState
  node : NodeIndex
  slot : Nat
deriving DecidableEq, Repr

/-- Every node of the earlier pool is a node of the later one, with the same state. -/
def KeepsStates (earlier later : Array Node) : Prop :=
  ∀ (i : NodeIndex) (state : WorldState),
    earlier[i]?.map (·.state) = some state → later[i]?.map (·.state) = some state

/-- The histories of a table for up to `nodeLimit` nodes: the table after them, the pool that its
nodes belong to, and what was inserted since it was last empty, the latest first. -/
inductive History (nodeLimit : Nat) : StateTable → Array Node → List Insertion → Prop where
  | new (nodes : Array Node) : History nodeLimit (ofCapacity nodeLimit) nodes []
  /-- An empty table can be used with any pool. -/
  | clear {table : StateTable} {nodes : Array Node} {entries : List Insertion}
      (before : History nodeLimit table nodes entries) (pool : Array Node) :
      History nodeLimit table.clear pool []
  /-- Nodes can be added, and their paths and costs can change. -/
  | grow {table : StateTable} {nodes pool : Array Node} {entries : List Insertion}
      (before : History nodeLimit table nodes entries) (keeps : KeepsStates nodes pool) :
      History nodeLimit table pool entries
  /-- A state is looked up, and a node of it is stored in the free slot that was found. The node
  may have been added in between. -/
  | insert {table : StateTable} {nodes pool : Array Node} {entries : List Insertion}
      (before : History nodeLimit table nodes entries) (room : entries.length < nodeLimit)
      {state : WorldState} {slot : Nat} (lookup : table.lookup nodes state = .free slot)
      (keeps : KeepsStates nodes pool) {node : NodeIndex}
      (node_state : pool[node]?.map (·.state) = some state) :
      History nodeLimit (table.store slot node) pool (⟨state, node, slot⟩ :: entries)

/-- The table is the map of the given insertions. -/
structure IsMapOf (table : StateTable) (nodes : Array Node) (entries : List Insertion) : Prop where
  /-- No state was inserted twice. -/
  nodup : (entries.map (·.state)).Nodup
  /-- Exactly the inserted states are found, each with its node. -/
  lookup_eq_known_iff : ∀ state node, table.lookup nodes state = .known node ↔
    ∃ entry ∈ entries, entry.state = state ∧ entry.node = node
  /-- For any other state a slot is found that was not written. -/
  lookup_eq_free : ∀ state, (∀ entry ∈ entries, entry.state ≠ state) →
    ∃ slot < table.slots.size, table.lookup nodes state = .free slot ∧
      ∀ entry ∈ entries, entry.slot ≠ slot
  lookup_ne_full : ∀ state, table.lookup nodes state ≠ .full
  /-- No look-up goes to a node that the pool does not have. -/
  node_lt : ∀ slot ∈ table.slots, slot.generation = table.generation → slot.node < nodes.size

/-- How a table represents the insertions since it was last empty. -/
structure Records (nodeLimit : Nat) (table : StateTable) (nodes : Array Node)
    (entries : List Insertion) : Prop where
  bounded : table.Bounded
  size_eq : table.slots.size = slotCount nodeLimit
  length_le : entries.length ≤ nodeLimit
  takenCount_le : table.takenCount ≤ entries.length
  nodup : (entries.map (·.state)).Nodup
  state_eq : ∀ entry ∈ entries, nodes[entry.node]?.map (·.state) = some entry.state
  reaches : ∀ entry ∈ entries, table.Reaches entry.state entry.node
  slot_eq : ∀ entry ∈ entries, table.slots[entry.slot]? = some ⟨table.generation, entry.node⟩
  /-- No slot of the generation is left over from anything else. -/
  exists_of_taken : ∀ slot ∈ table.slots, slot.generation = table.generation →
    ∃ entry ∈ entries, entry.node = slot.node

variable {nodeLimit : Nat} {table : StateTable} {nodes pool : Array Node}
  {entries : List Insertion} {state : WorldState} {slot : Nat} {node : NodeIndex}

/-- A free slot that is found is a slot of the table, and it is free. -/
theorem getElem?_of_lookup_free (h : table.lookup nodes state = .free slot) :
    ∃ found, table.slots[slot]? = some found ∧ found.generation ≠ table.generation := by
  obtain ⟨k, hk, rfl, hfree, -⟩ := exists_of_lookupFrom_free h
  exact ⟨_, getElem?_probe (Nat.zero_lt_of_lt hk) _ k, hfree⟩

/-! ## The representation -/

/-- An empty table represents no insertion. -/
theorem records_of_clean (hclean : table.Clean) (hbounded : table.Bounded)
    (hsize : table.slots.size = slotCount nodeLimit) (nodes : Array Node) :
    Records nodeLimit table nodes [] where
  bounded := hbounded
  size_eq := hsize
  length_le := Nat.zero_le _
  takenCount_le := Nat.le_of_eq (takenCount_of_clean hclean)
  nodup := List.nodup_nil
  state_eq := List.forall_mem_nil _
  reaches := List.forall_mem_nil _
  slot_eq := List.forall_mem_nil _
  exists_of_taken slot hslot htaken := absurd htaken (hclean.generation_ne slot hslot)

namespace Records

theorem grow (h : Records nodeLimit table nodes entries) (hkeeps : KeepsStates nodes pool) :
    Records nodeLimit table pool entries :=
  { h with state_eq := fun entry hentry => hkeeps _ _ (h.state_eq entry hentry) }

/-- The free slot for a state is none of those that were written. -/
theorem slot_ne_of_lookup_free (h : Records nodeLimit table nodes entries)
    (hlookup : table.lookup nodes state = .free slot) :
    ∀ entry ∈ entries, entry.slot ≠ slot := by
  rintro entry hentry rfl
  obtain ⟨found, hfound, hfree⟩ := getElem?_of_lookup_free hlookup
  rw [h.slot_eq entry hentry] at hfound
  obtain rfl := Option.some.inj hfound
  exact hfree rfl

/-- A state for which a free slot is found was not inserted. -/
theorem state_ne_of_lookup_free (h : Records nodeLimit table nodes entries)
    (hlookup : table.lookup nodes state = .free slot) :
    ∀ entry ∈ entries, entry.state ≠ state := by
  rintro entry hentry rfl
  exact not_reaches_of_lookup_free hlookup (h.state_eq entry hentry) (h.reaches entry hentry)

/-- A state that is found was inserted with the node. -/
theorem exists_of_lookup_known (h : Records nodeLimit table nodes entries)
    (hlookup : table.lookup nodes state = .known node) :
    ∃ entry ∈ entries, entry.state = state ∧ entry.node = node := by
  obtain ⟨hstate, k, -, hprobe⟩ := exists_of_lookupFrom_known hlookup
  have hmem := Array.mem_of_getElem? (getElem?_probe h.bounded.nonempty state.hash.toNat k)
  rw [hprobe] at hmem
  obtain ⟨entry, hentry, rfl⟩ := h.exists_of_taken _ hmem rfl
  refine ⟨entry, hentry, ?_, rfl⟩
  exact Option.some.inj ((h.state_eq entry hentry).symm.trans hstate)

/-- An insertion is recorded with those before it. -/
theorem insert (h : Records nodeLimit table nodes entries) (hroom : entries.length < nodeLimit)
    (hlookup : table.lookup nodes state = .free slot) (hkeeps : KeepsStates nodes pool)
    (hnode : pool[node]?.map (·.state) = some state) :
    Records nodeLimit (table.store slot node) pool (⟨state, node, slot⟩ :: entries) where
  bounded := bounded_store h.bounded slot node
  size_eq := (table.size_store slot node).trans h.size_eq
  length_le := hroom
  takenCount_le :=
    Nat.le_trans (table.takenCount_store_le slot node) (Nat.succ_le_succ h.takenCount_le)
  nodup := by
    refine List.nodup_cons.2 ⟨fun hmem => ?_, h.nodup⟩
    obtain ⟨entry, hentry, hstate⟩ := List.mem_map.1 hmem
    exact h.state_ne_of_lookup_free hlookup entry hentry hstate
  state_eq := List.forall_mem_cons.2 ⟨hnode, (h.grow hkeeps).state_eq⟩
  reaches := List.forall_mem_cons.2 ⟨reaches_store_self hlookup node,
    fun entry hentry => (h.reaches entry hentry).store hlookup node⟩
  slot_eq := by
    obtain ⟨found, hfound, -⟩ := getElem?_of_lookup_free hlookup
    refine List.forall_mem_cons.2 ⟨?_, fun entry hentry => ?_⟩
    · exact Array.getElem?_setIfInBounds_self_of_lt (Array.getElem?_eq_some_iff.1 hfound).1
    · -- The slots of the other insertions are taken, so none of them is written.
      have hne := (h.slot_ne_of_lookup_free hlookup entry hentry).symm
      exact (Array.getElem?_setIfInBounds_ne hne).trans (h.slot_eq entry hentry)
  exists_of_taken other hother htaken := by
    rcases Array.mem_or_eq_of_mem_setIfInBounds hother with hold | rfl
    · obtain ⟨entry, hentry, hnode⟩ := h.exists_of_taken other hold htaken
      exact ⟨entry, List.mem_cons_of_mem _ hentry, hnode⟩
    · exact ⟨_, List.mem_cons_self, rfl⟩

/-- With more slots than insertions, a look-up does not find the table full. -/
theorem lookup_ne_full (h : Records nodeLimit table nodes entries) (state : WorldState) :
    table.lookup nodes state ≠ .full := by
  refine StateTable.lookup_ne_full ?_ nodes state
  calc table.takenCount
    _ ≤ entries.length := h.takenCount_le
    _ ≤ nodeLimit := h.length_le
    _ < slotCount nodeLimit := lt_slotCount nodeLimit
    _ = table.slots.size := h.size_eq.symm

/-- A state that was inserted is found with its node. -/
theorem lookup_eq_known (h : Records nodeLimit table nodes entries) {entry : Insertion}
    (hentry : entry ∈ entries) : table.lookup nodes entry.state = .known entry.node := by
  cases hlookup : table.lookup nodes entry.state with
  | known node =>
    obtain ⟨other, hother, hstate, rfl⟩ := h.exists_of_lookup_known hlookup
    rw [List.inj_on_of_nodup_map h.nodup hother hentry hstate]
  | free slot => exact absurd rfl (h.state_ne_of_lookup_free hlookup entry hentry)
  | full => exact absurd hlookup (h.lookup_ne_full entry.state)

/-- A table without insertions is empty. -/
theorem clean (h : Records nodeLimit table nodes []) : table.Clean where
  nonempty := h.bounded.nonempty
  generation_ne slot hslot htaken := by
    obtain ⟨entry, hentry, -⟩ := h.exists_of_taken slot hslot htaken
    cases hentry

theorem isMapOf (h : Records nodeLimit table nodes entries) : IsMapOf table nodes entries where
  nodup := h.nodup
  lookup_eq_known_iff state node := by
    refine ⟨h.exists_of_lookup_known, ?_⟩
    rintro ⟨entry, hentry, rfl, rfl⟩
    exact h.lookup_eq_known hentry
  lookup_eq_free state hnew := by
    cases hlookup : table.lookup nodes state with
    | known node =>
      obtain ⟨entry, hentry, hstate, -⟩ := h.exists_of_lookup_known hlookup
      exact absurd hstate (hnew entry hentry)
    | free slot =>
      obtain ⟨found, hfound, -⟩ := getElem?_of_lookup_free hlookup
      exact ⟨slot, (Array.getElem?_eq_some_iff.1 hfound).1, rfl,
        h.slot_ne_of_lookup_free hlookup⟩
    | full => exact absurd hlookup (h.lookup_ne_full state)
  lookup_ne_full := h.lookup_ne_full
  node_lt slot hslot htaken := by
    obtain ⟨entry, hentry, hnode⟩ := h.exists_of_taken slot hslot htaken
    obtain ⟨found, hfound, -⟩ := Option.map_eq_some_iff.1 (h.state_eq entry hentry)
    exact hnode ▸ (Array.getElem?_eq_some_iff.1 hfound).1

end Records

/-! ## After any history -/

theorem clean_ofCapacity (nodeLimit : Nat) : (ofCapacity nodeLimit).Clean where
  nonempty := (bounded_ofCapacity nodeLimit).nonempty
  generation_ne slot hslot := by
    obtain ⟨-, rfl⟩ := Array.mem_replicate.1 hslot
    exact show (0 : UInt32) ≠ 1 by decide

/-- Whatever came before, the table represents the insertions since it was last empty. -/
theorem History.records (h : History nodeLimit table nodes entries) :
    Records nodeLimit table nodes entries := by
  induction h with
  | new nodes =>
    exact records_of_clean (clean_ofCapacity nodeLimit) (bounded_ofCapacity nodeLimit)
      Array.size_replicate nodes
  | @clear table _ _ _ pool ih =>
    -- Nothing is known of the slots but that none is ahead of its generation.
    exact records_of_clean (clean_clear ih.bounded) (bounded_clear ih.bounded)
      (table.size_clear.trans ih.size_eq) pool
  | grow _ keeps ih => exact ih.grow keeps
  | insert _ room lookup keeps node_state ih => exact ih.insert room lookup keeps node_state

/-- After any history the table is the map of what was inserted since it was last empty. -/
theorem isMapOf_of_history (h : History nodeLimit table nodes entries) :
    IsMapOf table nodes entries :=
  h.records.isMapOf

/-! ## When the generation comes round -/

theorem History.iterate_clear (h : History nodeLimit table nodes entries) {n : Nat} (hn : n ≠ 0)
    (pool : Array Node) : History nodeLimit (StateTable.clear^[n] table) pool [] := by
  induction n with
  | zero => exact absurd rfl hn
  | succ n ih =>
    rw [Function.iterate_succ_apply']
    obtain rfl | hn' := Nat.eq_zero_or_pos n
    · exact h.clear pool
    · exact (ih (Nat.ne_of_gt hn')).clear pool

theorem toNat_generation_iterate_clear {n : Nat}
    (h : table.generation.toNat + n < UInt32.size) :
    (clear^[n] table).generation.toNat = table.generation.toNat + n := by
  induction n with
  | zero => rfl
  | succ n ih =>
    have hn := ih (Nat.lt_of_succ_lt h)
    have hne : (clear^[n] table).generation + 1 ≠ 0 := fun hround => by
      have hzero := congrArg UInt32.toNat hround
      rw [UInt32.toNat_add, UInt32.toNat_one, UInt32.toNat_zero, hn, Nat.add_assoc,
        Nat.mod_eq_of_lt h] at hzero
      exact Nat.succ_ne_zero _ hzero
    rw [Function.iterate_succ_apply', clear, if_neg hne, toNat_add_one hne, hn, Nat.add_assoc]

/-- Generation zero is passed over, so a table is in its first generation again one step early. -/
theorem generation_iterate_clear_of_round (h : table.generation = 1) :
    (clear^[UInt32.size - 1] table).generation = 1 := by
  have hlast : (clear^[UInt32.size - 2] table).generation.toNat = UInt32.size - 1 := by
    rw [toNat_generation_iterate_clear] <;> rw [h] <;> decide
  have hround : (clear^[UInt32.size - 2] table).generation + 1 = 0 := by
    refine UInt32.toNat_inj.1 ?_
    rw [UInt32.toNat_add, hlast]
    rfl
  have hsucc : UInt32.size - 1 = UInt32.size - 2 + 1 := rfl
  rw [hsucc, Function.iterate_succ_apply', clear, if_pos hround]

/-- A slot that was written in the first generation does not come to life when the generation is
the first again. The state that is inserted then belongs in the slot of the old one. -/
theorem isMapOf_after_round :
    ∃ used table : StateTable, used.lookup #[⟨.empty, none, 0⟩] .empty = .known 0 ∧
      table = clear^[UInt32.size - 1] used ∧ table.generation = used.generation ∧
      History 1 (table.store 0 0) #[⟨.ofAtoms [1], none, 0⟩] [⟨.ofAtoms [1], 0, 0⟩] ∧
      IsMapOf (table.store 0 0) #[⟨.ofAtoms [1], none, 0⟩] [⟨.ofAtoms [1], 0, 0⟩] := by
  have hused : History 1 ((ofCapacity 1).store 0 0) #[⟨.empty, none, 0⟩] [⟨.empty, 0, 0⟩] :=
    .insert (.new #[]) Nat.one_pos (by decide +kernel) (fun _ _ h => by cases h) rfl
  -- Only its history and its generation are known of the table: no step of it is carried out.
  obtain ⟨table, htable⟩ :
      ∃ table, table = clear^[UInt32.size - 1] ((ofCapacity 1).store 0 0) := ⟨_, rfl⟩
  have hempty : History 1 table #[] [] := by
    rw [htable]
    exact hused.iterate_clear (by decide) #[]
  have hround : table.generation = 1 := by
    rw [htable]
    exact generation_iterate_clear_of_round rfl
  have hlookup : table.lookup #[] (.ofAtoms [1]) = .free 0 := by
    rw [lookup_of_clean hempty.records.clean, hempty.records.size_eq]
    decide +kernel
  have hstored :
      History 1 (table.store 0 0) #[⟨.ofAtoms [1], none, 0⟩] [⟨.ofAtoms [1], 0, 0⟩] :=
    .insert hempty Nat.one_pos hlookup (fun _ _ h => by cases h) rfl
  exact ⟨_, table, by decide +kernel, htable, hround, hstored, isMapOf_of_history hstored⟩

end StateTable

end AgentPlanning
