import AgentPlanning.Description.Json
import AgentPlanning.Proofs.Json.Codec
import AgentPlanning.Proofs.Json.Defaults

/-!
# Reading Descriptions Back

A description is read back from its text, also if members that hold their defaults are left out of
the text. For each record there are three facts: a table of its defaults suits its reader, what is
written is read back, and the text of what is written is readable. Members without a default inside
are read by a table that is empty; so are the tests, bindings, subtasks and considerations, which
have no defaults at all. Main statements:

* `restores`: leaving out defaults does not change what is read, whatever else the value holds;
* `decode?_encode`: a description is read back from its JSON form;
* `decode?_of_drops`: the same with any defaults left out, which is the main result;
* `decode?_parse?_of_drops`: the same from the text, if its numbers are finite and are read back.
-/

namespace AgentPlanning

open Json

namespace Description

variable {number : Float32 → String}

/-- A fact holds unless its value is given. -/
def Fact.defaults : Defaults := .mk [("value", encode true)] []

theorem Fact.restores : Restores Fact.defaults Fact :=
  .record (fun _ => rfl) fun _ _ h =>
    .bind (h.required? "atom" rfl .empty) fun _ =>
    .bind (h.optional? "value" true rfl (decode?_encode_bool _) .empty) fun _ => .refl _

theorem Fact.decode?_encode (fact : Fact) : decode? (encode fact) = some fact :=
  bind_eq_some_of rfl <|
  bind_eq_some_of (Members.required?_eq_some rfl (decode?_encode_string fact.atom)) <|
  bind_eq_some_of (Members.optional?_eq_some rfl (decode?_encode_bool fact.value)) rfl

theorem Fact.readable_encode (fact : Fact) : (encode fact).Readable number :=
  .object (by simp) (by simp)

theorem Facts.decode?_encode (facts : List Fact) : decode? (encode facts) = some facts :=
  decode?_encode_list facts fun fact _ => fact.decode?_encode

theorem Facts.readable_encode (facts : List Fact) : (encode facts).Readable number :=
  readable_encode_list fun fact _ => fact.readable_encode

/-- An order replaces all others, on behalf of the first player. -/
def Order.defaults : Defaults :=
  .mk [("mode", encode SubmitMode.replace), ("player", encode (0 : UInt32))] []

theorem Order.restores : Restores Order.defaults Order :=
  .record (fun _ => rfl) fun _ _ h =>
    .bind (h.required? "tag" rfl .empty) fun _ =>
    .bind (h.optional? "mode" .replace rfl (SubmitMode.decode?_encode _) .empty) fun _ =>
    .bind (h.optional? "player" 0 rfl (decode?_encode_uint32 _) .empty) fun _ => .refl _

theorem Order.decode?_encode (order : Order) : decode? (encode order) = some order :=
  bind_eq_some_of rfl <|
  bind_eq_some_of (Members.required?_eq_some rfl (decode?_encode_string order.tag)) <|
  bind_eq_some_of (Members.optional?_eq_some rfl order.mode.decode?_encode) <|
  bind_eq_some_of (Members.optional?_eq_some rfl (decode?_encode_uint32 order.player)) rfl

theorem Order.readable_encode (order : Order) : (encode order).Readable number :=
  .object (by simp) (by simp)

theorem Binding.decode?_encode (binding : Binding) : decode? (encode binding) = some binding := by
  cases binding with
  | intToArg key slot =>
    exact
      bind_eq_some_of rfl <|
      bind_eq_some_of (Members.required?_eq_some rfl (decode?_encode_string "int_to_arg")) <|
      bind_eq_some_of (Members.required?_eq_some rfl (decode?_encode_string key)) <|
      bind_eq_some_of (Members.required?_eq_some rfl (decode?_encode_uint8 slot)) rfl
  | entityToTarget key => rfl
  | entityToTargetContext key => rfl

theorem Binding.readable_encode (binding : Binding) : (encode binding).Readable number := by
  cases binding <;> exact .object (by simp) (by simp [Value.Readable.string])

theorem Projection.decode?_encode (rule : Projection) : decode? (encode rule) = some rule := by
  have h : Test.ofMembers? (("atom", encode rule.atom) :: rule.test.toMembers) =
      some rule.test := by
    cases rule.test with
    | intEquals key value | intAtLeast key value | intAtMost key value =>
      exact
        bind_eq_some_of rfl <|
        bind_eq_some_of rfl <|
        bind_eq_some_of (Members.required?_eq_some rfl (decode?_encode_string key)) <|
        bind_eq_some_of (Members.required?_eq_some rfl (decode?_encode_int32 value)) rfl
    | entityPresent key | entityAbsent key => rfl
  exact
    bind_eq_some_of rfl <|
    bind_eq_some_of (Members.required?_eq_some rfl (decode?_encode_string rule.atom)) <|
    bind_eq_some_of h rfl

theorem Projection.readable_encode (rule : Projection) : (encode rule).Readable number := by
  obtain ⟨atom, test⟩ := rule
  cases test <;>
    exact .object (by simp [Test.toMembers]) (by simp [Test.toMembers, Value.Readable.string])

/-- An action of cost one that needs nothing, causes nothing and submits the default order. -/
def Action.defaults : Defaults :=
  .mk
    [("pre", encode ([] : List Fact)), ("post", encode ([] : List Fact)),
      ("cost", encode (1 : UInt32)), ("executor", encode Executor.submitOrder),
      ("order", encode (none : Option Order)), ("bindings", encode ([] : List Binding))]
    [("pre", Fact.defaults), ("post", Fact.defaults), ("order", Order.defaults)]

theorem Action.restores : Restores Action.defaults Action :=
  .record (fun _ => rfl) fun _ _ h =>
    .bind (h.required? "name" rfl .empty) fun _ =>
    .bind (h.optional? "pre" [] rfl rfl Fact.restores.list) fun _ =>
    .bind (h.optional? "post" [] rfl rfl Fact.restores.list) fun _ =>
    .bind (h.optional? "cost" 1 rfl (decode?_encode_uint32 _) .empty) fun _ =>
    .bind (h.optional? "executor" .submitOrder rfl (Executor.decode?_encode _) .empty) fun _ =>
    .bind (h.optional? "order" none rfl rfl Order.restores.option) fun _ =>
    .bind (h.optional? "bindings" [] rfl rfl .empty) fun _ => .refl _

theorem Action.decode?_encode (a : Action) : decode? (encode a) = some a :=
  bind_eq_some_of rfl <|
  bind_eq_some_of (Members.required?_eq_some rfl (decode?_encode_string a.name)) <|
  bind_eq_some_of (Members.optional?_eq_some rfl (Facts.decode?_encode a.pre)) <|
  bind_eq_some_of (Members.optional?_eq_some rfl (Facts.decode?_encode a.post)) <|
  bind_eq_some_of (Members.optional?_eq_some rfl (decode?_encode_uint32 a.cost)) <|
  bind_eq_some_of (Members.optional?_eq_some rfl a.executor.decode?_encode) <|
  bind_eq_some_of (Members.optional?_eq_some rfl
    (decode?_encode_option a.order (fun order _ => order.decode?_encode) nofun)) <|
  bind_eq_some_of (Members.optional?_eq_some rfl
    (decode?_encode_list a.bindings fun binding _ => binding.decode?_encode)) rfl

theorem Action.readable_encode (a : Action) : (encode a).Readable number := by
  have horder : (encode a.order).Readable number :=
    readable_encode_option fun order _ => order.readable_encode
  have hbindings : (encode a.bindings).Readable number :=
    readable_encode_list fun binding _ => binding.readable_encode
  exact .object (by simp) (by simp [Facts.readable_encode, horder, hbindings])

/-- A goal that asks for nothing and has no root task. Each unsatisfied fact is estimated at one. -/
def Goal.defaults : Defaults :=
  .mk
    [("condition", encode ([] : List Fact)), ("heuristic_weight", encode (1 : UInt32)),
      ("root_task", encode (none : Option String))]
    [("condition", Fact.defaults)]

theorem Goal.restores : Restores Goal.defaults Goal :=
  .record (fun _ => rfl) fun _ _ h =>
    .bind (h.required? "name" rfl .empty) fun _ =>
    .bind (h.optional? "condition" [] rfl rfl Fact.restores.list) fun _ =>
    .bind (h.optional? "heuristic_weight" 1 rfl (decode?_encode_uint32 _) .empty) fun _ =>
    .bind (h.optional? "root_task" none rfl rfl .empty) fun _ => .refl _

theorem Goal.decode?_encode (g : Goal) : decode? (encode g) = some g :=
  bind_eq_some_of rfl <|
  bind_eq_some_of (Members.required?_eq_some rfl (decode?_encode_string g.name)) <|
  bind_eq_some_of (Members.optional?_eq_some rfl (Facts.decode?_encode g.condition)) <|
  bind_eq_some_of (Members.optional?_eq_some rfl (decode?_encode_uint32 g.weight)) <|
  bind_eq_some_of (Members.optional?_eq_some rfl
    (decode?_encode_option g.root (fun task _ => decode?_encode_string task) nofun)) rfl

theorem Goal.readable_encode (g : Goal) : (encode g).Readable number := by
  have hroot : (encode g.root).Readable number :=
    readable_encode_option fun task _ => readable_encode_string task
  exact .object (by simp) (by simp [Facts.readable_encode, hroot])

theorem Subtask.decode?_encode (part : Subtask) : decode? (encode part) = some part := by
  cases part <;> rfl

theorem Subtask.readable_encode (part : Subtask) : (encode part).Readable number := by
  cases part <;> exact .object (by simp) (by simp)

/-- A method that always applies, costs nothing and does nothing. -/
def Method.defaults : Defaults :=
  .mk
    [("condition", encode ([] : List Fact)), ("cost", encode (0 : UInt32)),
      ("subtasks", encode ([] : List Subtask))]
    [("condition", Fact.defaults)]

theorem Method.restores : Restores Method.defaults Method :=
  .record (fun _ => rfl) fun _ _ h =>
    .bind (h.required? "name" rfl .empty) fun _ =>
    .bind (h.optional? "condition" [] rfl rfl Fact.restores.list) fun _ =>
    .bind (h.optional? "cost" 0 rfl (decode?_encode_uint32 _) .empty) fun _ =>
    .bind (h.optional? "subtasks" [] rfl rfl .empty) fun _ => .refl _

theorem Method.decode?_encode (m : Method) : decode? (encode m) = some m :=
  bind_eq_some_of rfl <|
  bind_eq_some_of (Members.required?_eq_some rfl (decode?_encode_string m.name)) <|
  bind_eq_some_of (Members.optional?_eq_some rfl (Facts.decode?_encode m.condition)) <|
  bind_eq_some_of (Members.optional?_eq_some rfl (decode?_encode_uint32 m.cost)) <|
  bind_eq_some_of (Members.optional?_eq_some rfl
    (decode?_encode_list m.subtasks fun part _ => part.decode?_encode)) rfl

theorem Method.readable_encode (m : Method) : (encode m).Readable number := by
  have hsubtasks : (encode m.subtasks).Readable number :=
    readable_encode_list fun part _ => part.readable_encode
  exact .object (by simp) (by simp [Facts.readable_encode, hsubtasks])

/-- A task without methods. -/
def Task.defaults : Defaults :=
  .mk [("methods", encode ([] : List Method))] [("methods", Method.defaults)]

theorem Task.restores : Restores Task.defaults Task :=
  .record (fun _ => rfl) fun _ _ h =>
    .bind (h.required? "name" rfl .empty) fun _ =>
    .bind (h.optional? "methods" [] rfl rfl Method.restores.list) fun _ => .refl _

theorem Task.decode?_encode (t : Task) : decode? (encode t) = some t :=
  bind_eq_some_of rfl <|
  bind_eq_some_of (Members.required?_eq_some rfl (decode?_encode_string t.name)) <|
  bind_eq_some_of (Members.optional?_eq_some rfl
    (decode?_encode_list t.methods fun m _ => m.decode?_encode)) rfl

theorem Task.readable_encode (t : Task) : (encode t).Readable number := by
  have hmethods : (encode t.methods).Readable number :=
    readable_encode_list fun m _ => m.readable_encode
  exact .object (by simp) (by simp [hmethods])

/-- The numbers of a consideration that are not integers. -/
def Consideration.numbers : Consideration → List Float32
  | .atom _ ifTrue ifFalse => [ifTrue, ifFalse]
  | .intRange _ _ _ low high => [low, high]

theorem Consideration.decode?_encode {c : Consideration} (h : ∀ x ∈ c.numbers, x.isFinite = true) :
    decode? (encode c) = some c := by
  cases c with
  | atom atom ifTrue ifFalse =>
    have htrue := decode?_encode_float32 (h ifTrue (by simp [numbers]))
    have hfalse := decode?_encode_float32 (h ifFalse (by simp [numbers]))
    exact
      bind_eq_some_of rfl <|
      bind_eq_some_of (Members.required?_eq_some rfl (decode?_encode_string "atom")) <|
      bind_eq_some_of (Members.required?_eq_some rfl (decode?_encode_string atom)) <|
      bind_eq_some_of (Members.required?_eq_some rfl htrue) <|
      bind_eq_some_of (Members.required?_eq_some rfl hfalse) rfl
  | intRange key min max low high =>
    have hlow := decode?_encode_float32 (h low (by simp [numbers]))
    have hhigh := decode?_encode_float32 (h high (by simp [numbers]))
    exact
      bind_eq_some_of rfl <|
      bind_eq_some_of (Members.required?_eq_some rfl (decode?_encode_string "int_range")) <|
      bind_eq_some_of (Members.required?_eq_some rfl (decode?_encode_string key)) <|
      bind_eq_some_of (Members.required?_eq_some rfl (decode?_encode_int32 min)) <|
      bind_eq_some_of (Members.required?_eq_some rfl (decode?_encode_int32 max)) <|
      bind_eq_some_of (Members.required?_eq_some rfl hlow) <|
      bind_eq_some_of (Members.required?_eq_some rfl hhigh) rfl

theorem Consideration.readable_encode {c : Consideration}
    (h : ∀ x ∈ c.numbers, parse? (number x) = some (.real x)) : (encode c).Readable number := by
  cases c with
  | atom atom ifTrue ifFalse =>
    have htrue := readable_encode_float32 (h ifTrue (by simp [numbers]))
    have hfalse := readable_encode_float32 (h ifFalse (by simp [numbers]))
    exact .object (by simp) (by simp [Value.Readable.string, htrue, hfalse])
  | intRange key min max low high =>
    have hlow := readable_encode_float32 (h low (by simp [numbers]))
    have hhigh := readable_encode_float32 (h high (by simp [numbers]))
    exact .object (by simp) (by simp [Value.Readable.string, hlow, hhigh])

/-- An option of score one that is planned for by search. -/
def GoalOption.defaults : Defaults :=
  .mk
    [("strategy", encode PlanningStrategy.search), ("base_weight", encode (1 : Float32)),
      ("considerations", encode ([] : List Consideration))]
    []

theorem GoalOption.restores : Restores GoalOption.defaults GoalOption :=
  .record (fun _ => rfl) fun _ _ h =>
    .bind (h.required? "goal" rfl .empty) fun _ =>
    .bind (h.optional? "strategy" .search rfl (PlanningStrategy.decode?_encode _) .empty) fun _ =>
    .bind (h.optional? "base_weight" 1 rfl (decode?_encode_float32 rfl) .empty) fun _ =>
    .bind (h.optional? "considerations" [] rfl rfl .empty) fun _ => .refl _

/-- The numbers of a goal option that are not integers. -/
def GoalOption.numbers (u : GoalOption) : List Float32 :=
  u.base :: u.considerations.flatMap Consideration.numbers

theorem GoalOption.decode?_encode {u : GoalOption} (h : ∀ x ∈ u.numbers, x.isFinite = true) :
    decode? (encode u) = some u := by
  have hbase := decode?_encode_float32 (h u.base List.mem_cons_self)
  have hconsiderations : decode? (encode u.considerations) = some u.considerations :=
    decode?_encode_list u.considerations fun c hc => Consideration.decode?_encode fun x hx =>
      h x (List.mem_cons_of_mem _ (List.mem_flatMap.2 ⟨c, hc, hx⟩))
  exact
    bind_eq_some_of rfl <|
    bind_eq_some_of (Members.required?_eq_some rfl (decode?_encode_string u.goal)) <|
    bind_eq_some_of (Members.optional?_eq_some rfl u.strategy.decode?_encode) <|
    bind_eq_some_of (Members.optional?_eq_some rfl hbase) <|
    bind_eq_some_of (Members.optional?_eq_some rfl hconsiderations) rfl

theorem GoalOption.readable_encode {u : GoalOption}
    (h : ∀ x ∈ u.numbers, parse? (number x) = some (.real x)) : (encode u).Readable number := by
  have hbase := readable_encode_float32 (h u.base List.mem_cons_self)
  have hconsiderations : (encode u.considerations).Readable number :=
    readable_encode_list fun c hc => Consideration.readable_encode fun x hx =>
      h x (List.mem_cons_of_mem _ (List.mem_flatMap.2 ⟨c, hc, hx⟩))
  exact .object (by simp) (by simp [hbase, hconsiderations])

/-- Every part of a description may be missing. -/
def defaults : Defaults :=
  .mk
    [("atoms", encode ([] : List String)), ("projections", encode ([] : List Projection)),
      ("actions", encode ([] : List Action)), ("goals", encode ([] : List Goal)),
      ("tasks", encode ([] : List Task)), ("utility", encode ([] : List GoalOption)),
      ("min_utility_score", encode (0 : Float32))]
    [("actions", Action.defaults), ("goals", Goal.defaults), ("tasks", Task.defaults),
      ("utility", GoalOption.defaults)]

theorem restores : Restores defaults Description :=
  .record (fun _ => rfl) fun _ _ h =>
    .bind (h.optional? "atoms" [] rfl rfl .empty) fun _ =>
    .bind (h.optional? "projections" [] rfl rfl .empty) fun _ =>
    .bind (h.optional? "actions" [] rfl rfl Action.restores.list) fun _ =>
    .bind (h.optional? "goals" [] rfl rfl Goal.restores.list) fun _ =>
    .bind (h.optional? "tasks" [] rfl rfl Task.restores.list) fun _ =>
    .bind (h.optional? "utility" [] rfl rfl GoalOption.restores.list) fun _ =>
    .bind (h.optional? "min_utility_score" 0 rfl (decode?_encode_float32 rfl) .empty) fun _ =>
    .refl _

/-- The numbers of a description that are not integers. -/
def numbers (c : Description) : List Float32 :=
  c.threshold :: c.options.flatMap GoalOption.numbers

theorem decode?_encode {c : Description} (h : ∀ x ∈ c.numbers, x.isFinite = true) :
    decode? (encode c) = some c := by
  have hthreshold := decode?_encode_float32 (h c.threshold List.mem_cons_self)
  have hoptions : decode? (encode c.options) = some c.options :=
    decode?_encode_list c.options fun u hu => GoalOption.decode?_encode fun x hx =>
      h x (List.mem_cons_of_mem _ (List.mem_flatMap.2 ⟨u, hu, hx⟩))
  exact
    bind_eq_some_of rfl <|
    bind_eq_some_of (Members.optional?_eq_some rfl
      (decode?_encode_list c.atoms fun atom _ => decode?_encode_string atom)) <|
    bind_eq_some_of (Members.optional?_eq_some rfl
      (decode?_encode_list c.projections fun rule _ => rule.decode?_encode)) <|
    bind_eq_some_of (Members.optional?_eq_some rfl
      (decode?_encode_list c.actions fun a _ => a.decode?_encode)) <|
    bind_eq_some_of (Members.optional?_eq_some rfl
      (decode?_encode_list c.goals fun g _ => g.decode?_encode)) <|
    bind_eq_some_of (Members.optional?_eq_some rfl
      (decode?_encode_list c.tasks fun t _ => t.decode?_encode)) <|
    bind_eq_some_of (Members.optional?_eq_some rfl hoptions) <|
    bind_eq_some_of (Members.optional?_eq_some rfl hthreshold) rfl

theorem readable_encode {c : Description}
    (h : ∀ x ∈ c.numbers, parse? (number x) = some (.real x)) : (encode c).Readable number := by
  have hatoms : (encode c.atoms).Readable number :=
    readable_encode_list fun atom _ => readable_encode_string atom
  have hprojections : (encode c.projections).Readable number :=
    readable_encode_list fun rule _ => rule.readable_encode
  have hactions : (encode c.actions).Readable number :=
    readable_encode_list fun a _ => a.readable_encode
  have hgoals : (encode c.goals).Readable number :=
    readable_encode_list fun g _ => g.readable_encode
  have htasks : (encode c.tasks).Readable number :=
    readable_encode_list fun t _ => t.readable_encode
  have hoptions : (encode c.options).Readable number :=
    readable_encode_list fun u hu => GoalOption.readable_encode fun x hx =>
      h x (List.mem_cons_of_mem _ (List.mem_flatMap.2 ⟨u, hu, hx⟩))
  have hthreshold := readable_encode_float32 (h c.threshold List.mem_cons_self)
  exact .object (by simp) (by simp [hatoms, hprojections, hactions, hgoals, htasks, hoptions,
    hthreshold])

section Drops

open Relation (ReflTransGen)

variable {c : Description} {w : Value}

theorem decode?_of_drops (hfinite : ∀ x ∈ c.numbers, x.isFinite = true)
    (hdrops : ReflTransGen (Drops defaults) (encode c) w) : decode? w = some c :=
  restores.decode?_eq_some hdrops (decode?_encode hfinite)

theorem readable_of_drops (hnumber : ∀ x ∈ c.numbers, parse? (number x) = some (.real x))
    (hdrops : ReflTransGen (Drops defaults) (encode c) w) : w.Readable number := by
  induction hdrops with
  | refl => exact readable_encode hnumber
  | tail _ hstep ih => exact hstep.readable ih

/-- A description is read back from the text of its JSON form, and also from that of what is left
when any members that hold their defaults have been taken out, one after another. The numbers are
finite, and each of them is read back from its own text. -/
theorem decode?_parse?_of_drops (hfinite : ∀ x ∈ c.numbers, x.isFinite = true)
    (hnumber : ∀ x ∈ c.numbers, parse? (number x) = some (.real x))
    (hdrops : ReflTransGen (Drops defaults) (encode c) w) :
    (parse? (w.render number) >>= decode?) = some c := by
  rw [parse?_render (readable_of_drops hnumber hdrops)]
  exact decode?_of_drops hfinite hdrops

end Drops

/-- The wish to be warm, half as strong as it could be. -/
def hearth : Description where
  goals := [{ name := "warmth", condition := [⟨"is warm", true⟩] }]
  options := [{ goal := "warmth", base := 0.5 }]

/-- The JSON form of the wish without the value of the fact and without the least score. -/
def hearthMembers : Members :=
  [("atoms", .array []), ("projections", .array []), ("actions", .array []),
    ("goals", .array [.object
      [("name", .string "warmth"), ("condition", .array [.object [("atom", .string "is warm")]]),
        ("heuristic_weight", .int 1), ("root_task", .null)]]),
    ("tasks", .array []),
    ("utility", .array [.object
      [("goal", .string "warmth"), ("strategy", .string "goap"), ("base_weight", .real 0.5),
        ("considerations", .array [])]])]

theorem drops_hearth :
    Relation.ReflTransGen (Drops defaults) (encode hearth) (.object hearthMembers) := by
  let scored : Value := .object (hearthMembers ++ [("min_utility_score", encode (0 : Float32))])
  have hfact : Drops Fact.defaults (encode (Fact.mk "is warm" true))
      (.object [("atom", .string "is warm")]) :=
    @Drops.member _ [("atom", .string "is warm"), ("value", .bool true)] "value" _ rfl rfl
  have hgoal : Drops Goal.defaults (encode hearth.goals[0]) _ :=
    @Drops.inMember _ [("name", .string "warmth")]
      [("heuristic_weight", .int 1), ("root_task", .null)] "condition" _ _
      (@Drops.inElement _ [] [] _ _ hfact)
  have hvalue : Drops defaults (encode hearth) scored :=
    @Drops.inMember _ [("atoms", .array []), ("projections", .array []), ("actions", .array [])]
      [("tasks", .array []), ("utility", encode hearth.options),
        ("min_utility_score", encode (0 : Float32))] "goals" _ _
      (@Drops.inElement _ [] [] _ _ hgoal)
  have hscore : Drops defaults scored (.object hearthMembers) :=
    @Drops.member _ (hearthMembers ++ [("min_utility_score", encode (0 : Float32))])
      "min_utility_score" _ rfl rfl
  exact .tail (.single hvalue) hscore

/-- The texts of the numbers of the wish. -/
def hearthNumber (x : Float32) : String := if x = 0.5 then "0.5" else "0.0"

/-- The wish is read back from its text, though two members are missing in it. -/
theorem decode?_parse?_hearth :
    (∀ x ∈ hearth.numbers, x.isFinite = true) ∧
    (∀ x ∈ hearth.numbers, parse? (hearthNumber x) = some (.real x)) ∧
    Relation.ReflTransGen (Drops defaults) (encode hearth) (.object hearthMembers) ∧
    (parse? ((Value.object hearthMembers).render hearthNumber) >>= decode?) = some hearth := by
  have hfinite : ∀ x ∈ hearth.numbers, x.isFinite = true := by decide
  have hzero : parse? "0.0" = some (.real 0) :=
    parse?_of_numeral (x := ⟨false, ['0'], ['0'], none⟩) rfl
      (Numeral.value?_of_fraction 1 rfl rfl (by decide) (by decide))
  have hhalf : parse? "0.5" = some (.real 0.5) :=
    parse?_of_numeral (x := ⟨false, ['0'], ['5'], none⟩) rfl
      (Numeral.value?_of_fraction 1 rfl rfl (by decide) (by decide))
  have hnumber : ∀ x ∈ hearth.numbers, parse? (hearthNumber x) = some (.real x) := by
    have hnumbers : hearth.numbers = [0, 0.5] := rfl
    have hother : (0 : Float32) ≠ 0.5 := by decide
    simp [hnumbers, hearthNumber, hother, hzero, hhalf]
  exact ⟨hfinite, hnumber, drops_hearth,
    decode?_parse?_of_drops hfinite hnumber drops_hearth⟩

end Description

end AgentPlanning
