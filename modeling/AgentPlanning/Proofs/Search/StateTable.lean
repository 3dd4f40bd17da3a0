import AgentPlanning.Search.StateTable

/-!
# The Table of Visited States as a Map

A state is looked up along a fixed sequence of slots, and the first free slot of the sequence
ends the look-up. The table therefore knows a node if the node stands in the sequence of its
state and no slot before it is free. Main statements:

* `exists_of_lookupFrom_known`, `exists_of_lookupFrom_free`: what a look-up came across;
* `not_reaches_of_lookup_free`: a state for which a free slot is found belongs to no node;
* `reaches_store_self`, `Reaches.store`: storing a node in that slot makes it known and forgets
  no other, hence `holds_store`;
* `lookup_ne_full`: a look-up never finds the table full, as long as a slot is not taken;
* `clean_clear`, `bounded_clear`, `bounded_store`: advancing the generation empties the table,
  however many searches have used it before.
-/

namespace AgentPlanning

namespace StateTable

variable {table : StateTable} {nodes : Array Node} {state : WorldState} {slot : Nat}

/-- The slot that a look-up beginning at `start` comes to after `k` others. -/
def probe (table : StateTable) (start k : Nat) : Slot :=
  table.slots.getD ((start + k) % table.slots.size) {}

/-- The slot was written in the current generation. -/
def Taken (table : StateTable) (start k : Nat) : Prop :=
  (table.probe start k).generation = table.generation

/-- A look-up of the state comes to a slot with the node, past taken slots only. -/
def Reaches (table : StateTable) (state : WorldState) (index : NodeIndex) : Prop :=
  ∃ k < table.slots.size, table.probe state.hash.toNat k = ⟨table.generation, index⟩ ∧
    ∀ j < k, table.Taken state.hash.toNat j

/-- The table knows every node by its state. -/
def Holds (table : StateTable) (nodes : Array Node) : Prop :=
  ∀ i node, nodes[i]? = some node → ∃ k < table.slots.size,
    table.probe node.state.hash.toNat k = ⟨table.generation, i⟩ ∧
      ∀ j < k, table.Taken node.state.hash.toNat j

/-- There are slots, and none was written in the current generation. -/
structure Clean (table : StateTable) : Prop where
  /-- There are slots. -/
  nonempty : 0 < table.slots.size
  /-- All slots are free. -/
  generation_ne : ∀ slot ∈ table.slots, slot.generation ≠ table.generation

/-- There are slots, and none was written in a generation to come. -/
structure Bounded (table : StateTable) : Prop where
  /-- There are slots. -/
  nonempty : 0 < table.slots.size
  /-- No slot is ahead of the table. -/
  generation_le : ∀ slot ∈ table.slots, slot.generation ≤ table.generation

/-! ## Looking up a state -/

theorem getElem?_probe (hsize : 0 < table.slots.size) (start k : Nat) :
    table.slots[(start + k) % table.slots.size]? = some (table.probe start k) := by
  have hlt : (start + k) % table.slots.size < table.slots.size := Nat.mod_lt _ hsize
  rw [probe, Array.getD_eq_getD_getElem?, Array.getElem?_eq_getElem hlt, Option.getD_some]

theorem mod_add_succ (start k size : Nat) :
    (start % size + 1 + k) % size = (start + (k + 1)) % size := by
  rw [Nat.add_assoc, Nat.mod_add_mod, Nat.add_comm 1 k]

/-- A look-up that finds a node has come to a slot with it, and the node has the state. -/
theorem exists_of_lookupFrom_known {remaining start : Nat} {index : NodeIndex}
    (h : table.lookupFrom nodes state remaining start = .known index) :
    nodes[index]?.map (·.state) = some state ∧
      ∃ k < remaining, table.probe start k = ⟨table.generation, index⟩ := by
  induction remaining generalizing start with
  | zero => cases h
  | succ remaining ih =>
    rw [lookupFrom] at h
    split at h
    next => cases h
    next htaken =>
      split at h
      next hstate =>
        obtain rfl := Lookup.known.inj h
        exact ⟨hstate, 0, Nat.succ_pos _, congrArg (Slot.mk · _) (Classical.not_not.1 htaken)⟩
      next =>
        obtain ⟨hstate, k, hk, hprobe⟩ := ih h
        refine ⟨hstate, k + 1, Nat.succ_lt_succ hk, ?_⟩
        rwa [probe, mod_add_succ] at hprobe

/-- A state is found only at a node that has it. -/
theorem exists_of_lookupFrom {remaining start : Nat} {index : NodeIndex}
    (h : table.lookupFrom nodes state remaining start = .known index) :
    ∃ node, nodes[index]? = some node ∧ node.state = state :=
  Option.map_eq_some_iff.1 (exists_of_lookupFrom_known h).1

/-- A look-up that finds a free slot has come across taken slots of other states only. -/
theorem exists_of_lookupFrom_free {remaining start : Nat}
    (h : table.lookupFrom nodes state remaining start = .free slot) :
    ∃ k < remaining, slot = (start + k) % table.slots.size ∧ ¬table.Taken start k ∧
      ∀ j < k, table.Taken start j ∧
        nodes[(table.probe start j).node]?.map (·.state) ≠ some state := by
  induction remaining generalizing start with
  | zero => cases h
  | succ remaining ih =>
    rw [lookupFrom] at h
    split at h
    next hfree =>
      obtain rfl := Lookup.free.inj h
      exact ⟨0, Nat.succ_pos _, rfl, hfree, fun j hj => absurd hj (Nat.not_lt_zero j)⟩
    next htaken =>
      split at h
      next => cases h
      next hother =>
        obtain ⟨k, hk, hslot, hfree, hbefore⟩ := ih h
        -- The rest of the look-up is the same sequence of slots, one further on.
        have hshift : ∀ j,
            table.probe (start % table.slots.size + 1) j = table.probe start (j + 1) := fun j => by
          rw [probe, probe, mod_add_succ]
        refine ⟨k + 1, Nat.succ_lt_succ hk, hslot.trans (mod_add_succ ..), ?_, fun j hj => ?_⟩
        · rwa [Taken, ← hshift]
        · cases j with
          | zero => exact ⟨Classical.not_not.1 htaken, hother⟩
          | succ j =>
            have hj' := hbefore j (Nat.lt_of_succ_lt_succ hj)
            rwa [Taken, hshift] at hj'

/-- A node of a state for which a free slot is found is out of reach. -/
theorem not_reaches_of_lookup_free (hlookup : table.lookup nodes state = .free slot)
    {index : NodeIndex} (hstate : nodes[index]?.map (·.state) = some state) :
    ¬table.Reaches state index := by
  rintro ⟨position, -, hstored, htaken⟩
  obtain ⟨k, hk, -, hfree, hbefore⟩ := exists_of_lookupFrom_free hlookup
  -- The free slot would come before the slot of the node, be this slot, or come after it.
  rcases Nat.lt_trichotomy k position with hlt | rfl | hlt
  · exact hfree (htaken k hlt)
  · exact hfree (congrArg Slot.generation hstored)
  · have hother := (hbefore position hlt).2
    rw [hstored] at hother
    exact hother hstate

/-- A state for which a free slot is found belongs to no node. -/
theorem state_ne_of_lookup_free (h : table.Holds nodes)
    (hlookup : table.lookup nodes state = .free slot) {i : NodeIndex} {node : Node}
    (hnode : nodes[i]? = some node) : node.state ≠ state := by
  rintro rfl
  refine not_reaches_of_lookup_free hlookup ?_ (h i node hnode)
  rw [hnode, Option.map_some]

/-! ## Storing a node -/

@[simp] theorem size_store (table : StateTable) (slot : Nat) (index : NodeIndex) :
    (table.store slot index).slots.size = table.slots.size :=
  Array.size_setIfInBounds

theorem size_clear (table : StateTable) : table.clear.slots.size = table.slots.size := by
  rw [clear]
  split
  · exact Array.size_replicate
  · rfl

theorem probe_store {start k : Nat} (hsize : 0 < table.slots.size) (index : NodeIndex) :
    (table.store slot index).probe start k =
      if slot = (start + k) % table.slots.size then ⟨table.generation, index⟩
      else table.probe start k := by
  have hlt : (start + k) % table.slots.size < table.slots.size := Nat.mod_lt _ hsize
  rw [probe, size_store, store, Array.getD_eq_getD_getElem?, Array.getElem?_setIfInBounds]
  split
  next heq => rw [if_pos (heq ▸ hlt), Option.getD_some]
  next => rw [probe, Array.getD_eq_getD_getElem?]

theorem taken_store {start k : Nat} (hsize : 0 < table.slots.size) (index : NodeIndex)
    (h : table.Taken start k) : (table.store slot index).Taken start k := by
  rw [Taken, probe_store hsize]
  split
  · rfl
  · exact h

/-- A node that is stored in the free slot for its state is within reach. -/
theorem reaches_store_self (hlookup : table.lookup nodes state = .free slot)
    (index : NodeIndex) : (table.store slot index).Reaches state index := by
  obtain ⟨k, hk, hslot, -, hbefore⟩ := exists_of_lookupFrom_free hlookup
  have hsize : 0 < table.slots.size := Nat.zero_lt_of_lt hk
  -- The node stands in the slot that the look-up came to, with taken slots before it.
  refine ⟨k, by rwa [size_store], ?_, fun j hj => taken_store hsize _ (hbefore j hj).1⟩
  rw [probe_store hsize, if_pos hslot]
  rfl

/-- A node that is within reach stays so when the free slot for a state is used. -/
theorem Reaches.store {other : WorldState} {i : NodeIndex} (h : table.Reaches other i)
    (hlookup : table.lookup nodes state = .free slot) (index : NodeIndex) :
    (table.store slot index).Reaches other i := by
  obtain ⟨k, hk, hslot, hfree, -⟩ := exists_of_lookupFrom_free hlookup
  have hsize : 0 < table.slots.size := Nat.zero_lt_of_lt hk
  obtain ⟨position, hposition, hstored, htaken⟩ := h
  refine ⟨position, by rwa [size_store], ?_, fun j hj => taken_store hsize _ (htaken j hj)⟩
  -- The slot of the other node is taken, so it is not the free one.
  have hne : slot ≠ (other.hash.toNat + position) % table.slots.size := fun heq => by
    refine hfree ?_
    rw [Taken, probe, ← hslot, heq]
    exact congrArg Slot.generation hstored
  rw [probe_store hsize, if_neg hne]
  exact hstored

/-- A node of a new state becomes known in the free slot, and all others stay known. -/
theorem holds_store (h : table.Holds nodes) (hlookup : table.lookup nodes state = .free slot)
    {node : Node} (hstate : node.state = state) :
    (table.store slot nodes.size).Holds (nodes.push node) := by
  intro i other hother
  rw [Array.getElem?_push] at hother
  split at hother
  next hlast =>
    obtain rfl := Option.some.inj hother
    subst hlast hstate
    exact reaches_store_self hlookup nodes.size
  next => exact Reaches.store (h i other hother) hlookup nodes.size

/-- What the table knows depends on the states of the nodes only. -/
theorem holds_of_states {nodes' : Array Node} (h : table.Holds nodes)
    (hstates : ∀ (i : NodeIndex) (node' : Node), nodes'[i]? = some node' →
      ∃ node, nodes[i]? = some node ∧ node.state = node'.state) : table.Holds nodes' := by
  intro i node' hnode'
  obtain ⟨node, hnode, hstate⟩ := hstates i node' hnode'
  rw [← hstate]
  exact h i node hnode

/-! ## Emptying the table -/

theorem lookup_of_clean (h : table.Clean) (nodes : Array Node) (state : WorldState) :
    table.lookup nodes state = .free (state.hash.toNat % table.slots.size) := by
  have hlt : state.hash.toNat % table.slots.size < table.slots.size := Nat.mod_lt _ h.nonempty
  have hfree := h.generation_ne _ (Array.getElem_mem hlt)
  obtain ⟨n, hn⟩ : ∃ n, table.slots.size = n + 1 := Nat.exists_eq_add_one.2 h.nonempty
  -- The look-up ends with its first slot.
  have hlookup : table.lookup nodes state =
      table.lookupFrom nodes state (n + 1) state.hash.toNat := by
    rw [lookup, hn]
  rw [hlookup, lookupFrom, Array.getD_eq_getD_getElem?, Array.getElem?_eq_getElem hlt,
    Option.getD_some, if_pos hfree]

theorem bounded_ofCapacity (nodeLimit : Nat) : (ofCapacity nodeLimit).Bounded where
  nonempty := by
    rw [ofCapacity, Array.size_replicate]
    exact Nat.two_pow_pos _
  generation_le slot hslot := by
    obtain ⟨-, rfl⟩ := Array.mem_replicate.1 hslot
    exact show (0 : UInt32) ≤ 1 by decide

theorem bounded_store (h : table.Bounded) (slot : Nat) (index : NodeIndex) :
    (table.store slot index).Bounded where
  nonempty := (table.size_store slot index).symm ▸ h.nonempty
  generation_le other hother := by
    rcases Array.mem_or_eq_of_mem_setIfInBounds hother with hold | rfl
    · exact h.generation_le other hold
    · exact UInt32.le_refl _

theorem toNat_add_one {n : UInt32} (h : n + 1 ≠ 0) : (n + 1).toNat = n.toNat + 1 := by
  have hlt := n.toNat_lt
  have hne : (n + 1).toNat ≠ 0 := fun h0 => h (UInt32.toNat_inj.1 h0)
  rw [UInt32.toNat_add, UInt32.toNat_one] at hne ⊢
  omega

theorem bounded_clear (h : table.Bounded) : table.clear.Bounded := by
  rw [clear]
  split
  next =>
    refine ⟨by simpa using h.nonempty, fun slot hslot => ?_⟩
    obtain ⟨-, rfl⟩ := Array.mem_replicate.1 hslot
    exact show (0 : UInt32) ≤ 1 by decide
  next hround =>
    refine ⟨h.nonempty, fun slot hslot => ?_⟩
    have hle := h.generation_le slot hslot
    have hsucc := toNat_add_one hround
    rw [UInt32.le_iff_toNat_le] at hle ⊢
    dsimp only
    omega

/-- Advancing the generation empties the table. -/
theorem clean_clear (h : table.Bounded) : table.clear.Clean := by
  rw [clear]
  split
  next =>
    -- The generation has come round, and the slots are cleared.
    refine ⟨by simpa using h.nonempty, fun slot hslot => ?_⟩
    obtain ⟨-, rfl⟩ := Array.mem_replicate.1 hslot
    exact show (0 : UInt32) ≠ 1 by decide
  next hround =>
    -- No slot has caught up with the new generation.
    refine ⟨h.nonempty, fun slot hslot heq => ?_⟩
    have hle := h.generation_le slot hslot
    have hsucc := toNat_add_one hround
    rw [UInt32.le_iff_toNat_le] at hle
    rw [heq] at hle
    dsimp only at hle
    omega

/-! ## Counting the taken slots -/

/-- There are at least twice as many slots as nodes. -/
theorem two_mul_le_slotCount (nodes : Nat) : 2 * nodes ≤ slotCount nodes := by
  have hlt := Nat.lt_log2_self (n := max (2 * nodes) 2 - 1)
  rw [slotCount, Nat.pow_eq]
  omega

theorem lt_slotCount (nodes : Nat) : nodes < slotCount nodes := by
  have hpos : 0 < slotCount nodes := Nat.two_pow_pos _
  have hle := two_mul_le_slotCount nodes
  omega

/-- The number of slots that were written in the current generation. -/
def takenCount (table : StateTable) : Nat :=
  table.slots.countP fun slot => slot.generation == table.generation

theorem takenCount_of_clean (h : table.Clean) : table.takenCount = 0 :=
  Array.countP_eq_zero.2 fun slot hslot => by
    simpa using h.generation_ne slot hslot

theorem takenCount_store_le (table : StateTable) (slot : Nat) (index : NodeIndex) :
    (table.store slot index).takenCount ≤ table.takenCount + 1 := by
  rw [takenCount, store, takenCount, Array.setIfInBounds]
  split
  · rw [Array.countP_set]
    split <;> simp
  · exact Nat.le_succ _

/-- A look-up that finds no free slot has come across taken slots only. -/
theorem taken_of_lookupFrom_full {remaining start : Nat}
    (h : table.lookupFrom nodes state remaining start = .full) {k : Nat} (hk : k < remaining) :
    table.Taken start k := by
  induction remaining generalizing start k with
  | zero => exact absurd hk (Nat.not_lt_zero k)
  | succ remaining ih =>
    rw [lookupFrom] at h
    split at h
    next => cases h
    next htaken =>
      split at h
      next => cases h
      next =>
        cases k with
        | zero => exact Classical.not_not.1 htaken
        | succ k =>
          have hrest := ih h (Nat.lt_of_succ_lt_succ hk)
          rwa [Taken, probe, mod_add_succ] at hrest

/-- The slots of a look-up are all slots of the table. -/
theorem exists_probe_eq (table : StateTable) (start : Nat) {i : Nat} (hi : i < table.slots.size) :
    ∃ k < table.slots.size, table.probe start k = table.slots[i] := by
  have hsize : 0 < table.slots.size := Nat.zero_lt_of_lt hi
  have hstart := Nat.mod_lt start hsize
  -- From the first slot on, slot `i` is as far as the two are apart, going round.
  refine ⟨(i + table.slots.size - start % table.slots.size) % table.slots.size,
    Nat.mod_lt _ hsize, ?_⟩
  have hindex : (start + (i + table.slots.size - start % table.slots.size) % table.slots.size) %
      table.slots.size = i := by
    rw [Nat.add_mod_mod, ← Nat.mod_add_mod, ← Nat.add_sub_assoc (by omega),
      Nat.add_sub_cancel_left, Nat.add_mod_right, Nat.mod_eq_of_lt hi]
  have hprobe := getElem?_probe hsize start
    ((i + table.slots.size - start % table.slots.size) % table.slots.size)
  rw [hindex, Array.getElem?_eq_getElem hi] at hprobe
  exact (Option.some.inj hprobe).symm

/-- As long as a slot is not taken, a look-up does not find the table full. -/
theorem lookup_ne_full (h : table.takenCount < table.slots.size) (nodes : Array Node)
    (state : WorldState) : table.lookup nodes state ≠ .full := by
  intro hfull
  refine Nat.ne_of_lt h (Array.countP_eq_size.2 fun slot hslot => ?_)
  obtain ⟨i, hi, rfl⟩ := Array.mem_iff_getElem.1 hslot
  obtain ⟨k, hk, hprobe⟩ := table.exists_probe_eq state.hash.toNat hi
  have htaken := taken_of_lookupFrom_full hfull hk
  rw [Taken, hprobe] at htaken
  exact beq_iff_eq.2 htaken

end StateTable

end AgentPlanning
