import AgentPlanning.Order.Basic
import AgentPlanning.Proofs.Iteration

/-!
# Orders with Bound Parameters

Bindings are taken one after the other, and each writes one field of an order at most: none if it
names a slot that orders do not have, and none if its key has no value. What a field holds in the
end can therefore be read off the bindings for this field alone. Main statements:

* `Order.read_bindOne`: what one binding does to any of the fields;
* `Order.read_bindAll`: a field holds the last value that was bound to it;
* `Order.bindAll_filter`: bindings without effect can be left out;
* `Order.read_ofTemplate_bindAll`: the order that a template and its bindings give.
-/

namespace AgentPlanning

namespace Order

/-! ## The fields that are bound -/

/-- A field that bindings write. -/
inductive Field where
  /-- The argument in a slot. -/
  | arg (slot : Fin 4)
  /-- The target. -/
  | target
  /-- The context of the target. -/
  | targetContext
deriving DecidableEq

/-- The type of what a field holds. -/
abbrev Field.Value : Field → Type
  | arg _ => Int32
  | target | targetContext => Option EntityRef

/-- What a field holds if nothing is bound to it. -/
def Field.unbound : (field : Field) → field.Value
  | arg _ => (0 : Int32)
  | target | targetContext => none

/-- What a field of the order holds. -/
def read (order : Order) : (field : Field) → field.Value
  | .arg slot => order.args[slot]
  | .target => order.target
  | .targetContext => order.targetContext

/-- The part of the order that its template fixes. -/
def template (order : Order) : OrderTemplate := ⟨order.tag, order.mode, order.player⟩

end Order

namespace Binding

variable (view : BlackboardView)

/-- What a binding writes to a field: nothing if it is a binding for another field, and nothing if
its key has no value. -/
def write? (field : Order.Field) : Binding → Option field.Value
  | intToArg key slot =>
    match field with
    | .arg place => if slot.toNat = place.val then view.int? key else none
    | .target | .targetContext => none
  | entityToTarget key =>
    match field with
    | .target => (view.entity? key).map some
    | .arg _ | .targetContext => none
  | entityToTargetContext key =>
    match field with
    | .targetContext => (view.entity? key).map some
    | .arg _ | .target => none

/-- Whether a binding writes anything: it needs a slot that orders have, and a key with a value. -/
def hasEffect : Binding → Bool
  | intToArg key slot => decide (slot.toNat < 4) && (view.int? key).isSome
  | entityToTarget key | entityToTargetContext key => (view.entity? key).isSome

end Binding

namespace Order

/-! ## One binding -/

variable (view : BlackboardView) (order : Order) (binding : Binding)

theorem bindOne_eq_self (h : binding.hasEffect view = false) :
    bindOne view order binding = order := by
  cases binding with
  | intToArg key slot =>
    rw [Binding.hasEffect, Bool.and_eq_false_iff, decide_eq_false_iff_not,
      Option.isSome_eq_false_iff, Option.isNone_iff_eq_none] at h
    rw [bindOne]
    split
    next hslot => rw [h.resolve_left (not_not_intro hslot)]
    next => rfl
  | entityToTarget key | entityToTargetContext key =>
    rw [Binding.hasEffect, Option.isSome_eq_false_iff, Option.isNone_iff_eq_none] at h
    rw [bindOne, h]

theorem template_bindOne : (bindOne view order binding).template = order.template := by
  cases binding <;> rw [bindOne] <;> (repeat' split) <;> rfl

theorem actor_bindOne : (bindOne view order binding).actor = order.actor := by
  cases binding <;> rw [bindOne] <;> (repeat' split) <;> rfl

/-- A field takes the value that is bound to it, and keeps its own if there is none. -/
theorem read_bindOne (field : Field) :
    Overwrites (fun order : Order => order.read field) (fun binding => binding.write? view field)
      (bindOne view) := by
  intro order binding
  cases binding with
  | intToArg key slot =>
    cases hvalue : view.int? key with
    | none =>
      have hidle : (Binding.intToArg key slot).hasEffect view = false := by
        simp [Binding.hasEffect, hvalue]
      rw [bindOne_eq_self view order _ hidle]
      cases field <;> simp [Binding.write?, hvalue]
    | some value =>
      simp only [bindOne, hvalue]
      cases field with
      | arg place =>
        simp only [Binding.write?, hvalue, read, Fin.getElem_fin]
        split
        next hslot =>
          rw [Vector.getElem_set]
          split <;> rfl
        next hslot =>
          -- The order has no argument in this slot.
          rw [if_neg (by omega), Option.getD_none]
      | target | targetContext => split <;> rfl
  | entityToTarget key | entityToTargetContext key =>
    rw [bindOne]
    cases hentity : view.entity? key <;> cases field <;> simp [Binding.write?, read, hentity]

/-! ## All bindings -/

variable (bindings : List Binding)

/-- What a field holds is the last value that was bound to it, or what it held before. -/
theorem read_bindAll (field : Field) :
    (order.bindAll bindings view).read field =
      (bindings.filterMap (·.write? view field)).getLastD (order.read field) :=
  (read_bindOne view field).read_foldl bindings order

theorem template_bindAll : (order.bindAll bindings view).template = order.template :=
  List.foldlRecOn (motive := fun bound : Order => bound.template = order.template) bindings _ rfl
    fun bound hbound binding _ => (template_bindOne view bound binding).trans hbound

theorem actor_bindAll : (order.bindAll bindings view).actor = order.actor :=
  List.foldlRecOn (motive := fun bound : Order => bound.actor = order.actor) bindings _ rfl
    fun bound hbound binding _ => (actor_bindOne view bound binding).trans hbound

/-- Bindings without effect can be left out. -/
theorem bindAll_filter :
    order.bindAll (bindings.filter (·.hasEffect view)) view = order.bindAll bindings view := by
  rw [bindAll, bindAll, List.foldl_filter]
  congr 1
  funext bound binding
  cases heffect : binding.hasEffect view with
  | true => rw [if_pos rfl]
  | false => rw [if_neg Bool.false_ne_true, bindOne_eq_self view bound binding heffect]

theorem read_ofTemplate (template : OrderTemplate) (actor : EntityRef) (field : Field) :
    (ofTemplate template actor).read field = field.unbound := by
  cases field with
  | arg slot => exact Vector.getElem_replicate ..
  | target | targetContext => rfl

/-- In the order of a template each field holds the value of the last binding for it whose key has a
value, or its default if there is none. Bindings for slots that orders do not have and bindings
whose key has no value could as well be left out, and none changes what the template or the caller
fixes. -/
theorem read_ofTemplate_bindAll (template : OrderTemplate) (actor : EntityRef) :
    (∀ field, ((ofTemplate template actor).bindAll bindings view).read field =
      (bindings.filterMap (·.write? view field)).getLastD field.unbound) ∧
    (ofTemplate template actor).bindAll bindings view =
      (ofTemplate template actor).bindAll (bindings.filter (·.hasEffect view)) view ∧
    ((ofTemplate template actor).bindAll bindings view).template = template ∧
    ((ofTemplate template actor).bindAll bindings view).actor = actor := by
  refine ⟨fun field => ?_, (bindAll_filter ..).symm, ?_, ?_⟩
  · rw [read_bindAll, read_ofTemplate]
  · rw [template_bindAll]
    rfl
  · rw [actor_bindAll]
    rfl

/-- A later binding whose key has no value leaves the target that was bound before, and slot 4 is
none of an order. -/
example :
    let view : BlackboardView := ⟨fun _ => some 5, fun key => if key = 7 then some 70 else none⟩
    let order := (ofTemplate { tag := 3 } 1).bindAll
      [.entityToTarget 7, .intToArg 2 1, .entityToTarget 8, .intToArg 2 4] view
    order.target = some 70 ∧ order.targetContext = none ∧ order.args = #v[0, 5, 0, 0] := by
  decide

end Order

end AgentPlanning
