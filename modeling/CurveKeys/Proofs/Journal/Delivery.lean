import CurveKeys.Journal.Logger
import Mathlib.Data.List.DropRight
import Mathlib.Tactic.SplitIfs

/-!
# Journal — what a logger delivers

What a logger does with an entry is told by the actions before it.  The last level that was set for
the category counts, if categories were not cleared after that, and otherwise the last global level;
the last level of each sink counts there; and an attachment stands until its sink is detached or all
sinks are.

* `Logger.threshold`, `Logger.attachments`, `Logger.sinkNow`: what actions leave, told by the
  actions.
* `Logger.Follows`: a logger that keeps just that; `Logger.Follows.perform` is the step and
  `Logger.Follows.after` the run.
* `Logger.deliveries_follow`: what each of any actions delivers.
-/

namespace CurveKeys

namespace Sink

/-- What a sink makes of an entry that its level lets through.  Nothing comes of it in a file that
could not be opened, or if there is nobody to call. -/
def makes (terminal : Bool) (e : Entry) : Sink → Option Output
  | console _ format colours => some (.terminal (consoleLine (colours && terminal) e format))
  | file _ path isOpen       =>
    if isOpen then some (.appended path (e.text .full ++ [Text.newline])) else none
  | callback _ present       => if present then some (.handed e) else none

theorem write_eq (terminal : Bool) (s : Sink) (e : Entry) :
    s.write terminal e = if s.level ≤ e.level then s.makes terminal e else none := by
  cases s <;> rfl

@[simp] theorem level_withLevel (level : Level) (s : Sink) : (s.withLevel level).level = level := by
  cases s <;> rfl

@[simp] theorem withLevel_withLevel (new old : Level) (s : Sink) :
    (s.withLevel old).withLevel new = s.withLevel new := by
  cases s <;> rfl

@[simp] theorem withLevel_level (s : Sink) : s.withLevel s.level = s := by
  cases s <;> rfl

end Sink

namespace Logger

/-! ### A history and what it leaves -/

/-- The level that an action sets globally, for a category, or for a sink. -/
def Action.level? : Action → Option Level
  | .setLevel level => some level
  | _               => none

def Action.categoryLevel? (category : Bytes) : Action → Option Level
  | .setCategory name level => if name = category then some level else none
  | _                       => none

def Action.sinkLevel? (id : SinkId) : Action → Option Level
  | .setSinkLevel other level => if other = id then some level else none
  | _                         => none

/-- The sink that an action attaches. -/
def Action.attached? : Action → Option SinkId
  | .attach id => some id
  | _          => none

/-- Whether an action ends the attachments of a sink. -/
def Action.ends (id : SinkId) : Action → Bool
  | .detach other => other = id
  | .detachAll    => true
  | _             => false

/-- The last answer that actions give. -/
def last? (answer : Action → Option Level) (actions : List Action) : Option Level :=
  (actions.filterMap answer).getLast?

/-- The global level: the last one set. -/
def globalLevel (actions : List Action) : Level := (last? Action.level? actions).getD .info

/-- The level of a category: the last one set for it since categories were last cleared. -/
def ownLevel? (actions : List Action) (category : Bytes) : Option Level :=
  last? (Action.categoryLevel? category) (actions.rtakeWhile fun a => a ≠ .clearCategories)

/-- The level that entries of a category must reach. -/
def threshold (actions : List Action) (category : Bytes) : Level :=
  (ownLevel? actions category).getD (globalLevel actions)

/-- The sink of an identity, with the last level set for it. -/
def sinkNow (sinks : List (SinkId × Sink)) (actions : List Action) (id : SinkId) : Option Sink :=
  (sinks.lookup id).map fun s => s.withLevel ((last? (Action.sinkLevel? id) actions).getD s.level)

/-- The attachments, in the order in which they were made: those that no later action ended. -/
def attachments : List Action → List SinkId
  | []               => []
  | action :: later =>
    (action.attached?.toList.filter fun id => !later.any (Action.ends id)) ++ attachments later

/-- The sinks that an entry reaches, one for each attachment whose sink has a level that lets it
through. -/
def reached (sinks : List (SinkId × Sink)) (actions : List Action) (e : Entry) :
    List (SinkId × Sink) :=
  ((attachments actions).filterMap fun id => (sinkNow sinks actions id).map (id, ·)).filter
    fun x => x.2.level ≤ e.level

/-- What an action delivers after others. -/
def delivered (terminal : Bool) (sinks : List (SinkId × Sink)) (actions : List Action) :
    Action → List Delivery
  | .log e =>
    if e.level ≠ .off ∧ threshold actions e.category ≤ e.level then
      (reached sinks actions e).filterMap fun x => (x.2.makes terminal e).map (x.1, ·)
    else []
  | _      => []

variable {terminal : Bool} {l : Logger} {sinks : List (SinkId × Sink)} {actions later : List Action}
  {action : Action} {category : Bytes} {id : SinkId}

/-! ### One more action in a history -/

theorem last?_concat (answer : Action → Option Level) :
    last? answer (actions ++ [action]) = (answer action).or (last? answer actions) := by
  rw [last?, List.filterMap_append, List.getLast?_append, List.filterMap_cons]
  cases answer action <;> rfl

theorem globalLevel_concat :
    globalLevel (actions ++ [action]) = action.level?.getD (globalLevel actions) := by
  rw [globalLevel, last?_concat, Option.getD_or]
  rfl

theorem ownLevel?_concat :
    ownLevel? (actions ++ [action]) category =
      if action = .clearCategories then none
      else (action.categoryLevel? category).or (ownLevel? actions category) := by
  rw [ownLevel?, List.rtakeWhile_concat]
  by_cases h : action = .clearCategories
  · rw [if_pos h, if_neg (by simp [h])]
    rfl
  · rw [if_neg h, if_pos (decide_eq_true h), last?_concat]
    rfl

theorem sinkNow_concat :
    sinkNow sinks (actions ++ [action]) id =
      (sinkNow sinks actions id).map fun s =>
        s.withLevel ((action.sinkLevel? id).getD s.level) := by
  rw [sinkNow, sinkNow, Option.map_map, last?_concat]
  refine Option.map_congr fun s _ => ?_
  rw [Function.comp, Sink.withLevel_withLevel, Sink.level_withLevel, Option.getD_or]

/-- What was attached stands unless it is ended, and what is attached later comes after it. -/
theorem attachments_append :
    attachments (actions ++ later) =
      ((attachments actions).filter fun id => !later.any (Action.ends id)) ++
        attachments later := by
  induction actions with
  | nil => rfl
  | cons action actions ih =>
      rw [List.cons_append, attachments, attachments, ih, List.filter_append, List.filter_filter,
        List.append_assoc]
      congr 2
      funext id
      rw [List.any_append, Bool.not_or, Bool.and_comm]

/-- Detaching a sink ends all its attachments, and the others keep their order. -/
theorem attachments_concat_detach :
    attachments (actions ++ [.detach id]) = (attachments actions).filter (· ≠ id) := by
  rw [attachments_append]
  refine (List.append_nil _).trans (List.filter_congr fun other _ => ?_)
  rw [List.any_cons, List.any_nil, Bool.or_false, Action.ends, ← decide_not]
  exact decide_eq_decide.mpr (not_congr eq_comm)

/-! ### One action on a logger -/

section Lookup

variable {α β : Type} [BEq α] [LawfulBEq α]

theorem lookup_map_values (f : α → β → β) (k : α) (xs : List (α × β)) :
    (xs.map fun x => (x.1, f x.1 x.2)).lookup k = (xs.lookup k).map (f k) := by
  induction xs with
  | nil => rfl
  | cons x xs ih =>
      rw [List.map_cons, List.lookup_cons, List.lookup_cons, ih]
      by_cases h : k = x.1
      · rw [h, beq_self_eq_true]
        rfl
      · rw [beq_false_of_ne h]

theorem lookup_filter_ne {k name : α} (h : k ≠ name) (xs : List (α × β)) :
    (xs.filter (·.1 != name)).lookup k = xs.lookup k := by
  induction xs with
  | nil => rfl
  | cons x xs ih =>
      by_cases hx : x.1 = name
      · rw [List.filter_cons_of_neg (by simp [hx]), ih, List.lookup_cons,
          beq_false_of_ne (hx ▸ h)]
      · rw [List.filter_cons_of_pos (by simp [hx]), List.lookup_cons, List.lookup_cons, ih]

end Lookup

theorem level_perform (action : Action) :
    (l.perform terminal action).1.level = action.level?.getD l.level := by
  cases action <;> rfl

theorem lookup_setCategory (name : Bytes) (level : Level) :
    (l.setCategory name level).categories.lookup category =
      if name = category then some level else l.categories.lookup category := by
  rw [setCategory, List.lookup_cons]
  by_cases h : name = category
  · rw [if_pos h, h, beq_self_eq_true]
  · rw [if_neg h, beq_false_of_ne (Ne.symm h)]
    exact lookup_filter_ne (Ne.symm h) _

theorem lookup_perform (action : Action) :
    (l.perform terminal action).1.categories.lookup category =
      if action = .clearCategories then none
      else (action.categoryLevel? category).or (l.categories.lookup category) := by
  cases action with
  | setCategory name level =>
      rw [if_neg nofun, perform, lookup_setCategory, Action.categoryLevel?]
      split_ifs <;> rfl
  | clearCategories => rfl
  | _ => rfl

theorem attached_perform (action : Action) :
    (l.perform terminal action).1.attached =
      (l.attached.filter fun id => !(List.any [action] (Action.ends id))) ++
        attachments [action] := by
  have hkept : l.attached = l.attached.filter fun _ => true := (List.filter_true _).symm
  cases action with
  | attach id => exact congrArg (· ++ [id]) hkept
  | detach id =>
      refine (List.filter_congr fun other _ => ?_).trans (List.append_nil _).symm
      rw [List.any_cons, List.any_nil, Bool.or_false, Action.ends, bne, Bool.beq_comm]
      rfl
  | detachAll => exact (List.filter_false _).symm.trans (List.append_nil _).symm
  | _ => exact hkept.trans (List.append_nil _).symm

theorem sink?_perform (action : Action) :
    (l.perform terminal action).1.sink? id =
      (l.sink? id).map fun s => s.withLevel ((action.sinkLevel? id).getD s.level) := by
  cases action with
  | setSinkLevel other level =>
      let f : SinkId → Sink → Sink := fun i s => if i = other then s.withLevel level else s
      refine (lookup_map_values f id l.sinks).trans (Option.map_congr fun s _ => ?_)
      rw [Action.sinkLevel?]
      change (if id = other then s.withLevel level else s) = _
      by_cases h : id = other
      · rw [if_pos h, if_pos h.symm]
        rfl
      · rw [if_neg h, if_neg (Ne.symm h)]
        exact s.withLevel_level.symm
  | _ => simp [perform, Action.sinkLevel?, sink?, setCategory]

/-! ### A logger that follows its history -/

/-- The logger keeps what the actions leave. -/
structure Follows (l : Logger) (sinks : List (SinkId × Sink)) (actions : List Action) : Prop where
  level : l.level = globalLevel actions
  categories : ∀ category, l.categories.lookup category = ownLevel? actions category
  attached : l.attached = attachments actions
  sinks : ∀ id, l.sink? id = sinkNow sinks actions id

/-- A logger to which nothing was done. -/
def fresh (sinks : List (SinkId × Sink)) : Logger := { initial with sinks }

theorem follows_fresh (sinks : List (SinkId × Sink)) : (fresh sinks).Follows sinks [] where
  level := rfl
  categories _ := rfl
  attached := rfl
  sinks id := by
    change sinks.lookup id = (sinks.lookup id).map fun s => s.withLevel s.level
    cases sinks.lookup id with
    | none => rfl
    | some s => exact congrArg some s.withLevel_level.symm

/-- **One action** keeps a logger in line with its history. -/
theorem Follows.perform (h : l.Follows sinks actions) (terminal : Bool) (action : Action) :
    (l.perform terminal action).1.Follows sinks (actions ++ [action]) where
  level := by rw [level_perform, h.level, globalLevel_concat]
  categories category := by rw [lookup_perform, h.categories, ownLevel?_concat]
  attached := by rw [attached_perform, h.attached, attachments_append]
  sinks id := by rw [sink?_perform, h.sinks, sinkNow_concat]

theorem Follows.effectiveLevel (h : l.Follows sinks actions) (category : Bytes) :
    l.effectiveLevel category = threshold actions category := by
  rw [Logger.effectiveLevel, h.categories, h.level]
  rfl

/-! ### What is delivered -/

/-- What the attached sinks make of an entry is made by those that it reaches. -/
theorem Follows.filterMap_writeTo (h : l.Follows sinks actions) (terminal : Bool) (e : Entry) :
    l.attached.filterMap (l.writeTo terminal e) =
      (reached sinks actions e).filterMap fun x => (x.2.makes terminal e).map (x.1, ·) := by
  rw [h.attached, reached, List.filterMap_filter, List.filterMap_filterMap]
  refine List.filterMap_congr fun id _ => ?_
  rw [writeTo, h.sinks]
  cases sinkNow sinks actions id with
  | none => rfl
  | some s =>
      change ((s.write terminal e).bind fun output => some (id, output)) =
        if decide (s.level ≤ e.level) = true then (s.makes terminal e).map (id, ·) else none
      rw [Sink.write_eq]
      by_cases hl : s.level ≤ e.level
      · rw [if_pos hl, if_pos (decide_eq_true hl)]
        exact Option.map_eq_bind.symm
      · rw [if_neg hl, if_neg (by simp [hl])]
        rfl

/-- **One action** delivers what the history says. -/
theorem Follows.snd_perform (h : l.Follows sinks actions) (terminal : Bool) (action : Action) :
    (l.perform terminal action).2 = delivered terminal sinks actions action := by
  cases action with
  | log e =>
      change l.log terminal e = _
      rw [log, h.filterMap_writeTo, delivered]
      refine if_congr ?_ rfl rfl
      rw [writes, h.effectiveLevel, Bool.and_eq_true, decide_eq_true_iff, decide_eq_true_iff]
  | _ => rfl

/-- The logger after actions. -/
def after (terminal : Bool) (l : Logger) (actions : List Action) : Logger :=
  actions.foldl (fun l action => (l.perform terminal action).1) l

/-- What each of a list of actions delivers. -/
def deliveries (terminal : Bool) (l : Logger) : List Action → List (List Delivery)
  | []                => []
  | action :: actions =>
    (l.perform terminal action).2 :: deliveries terminal (l.perform terminal action).1 actions

theorem Follows.after (h : l.Follows sinks actions) (terminal : Bool) (later : List Action) :
    (after terminal l later).Follows sinks (actions ++ later) := by
  induction later generalizing l actions with
  | nil => rwa [List.append_nil]
  | cons action later ih =>
      rw [← List.singleton_append, ← List.append_assoc]
      exact ih (h.perform terminal action)

theorem Follows.deliveries (h : l.Follows sinks actions) (terminal : Bool) (later : List Action) :
    deliveries terminal l later =
      later.mapIdx fun i action => delivered terminal sinks (actions ++ later.take i) action := by
  induction later generalizing l actions with
  | nil => rfl
  | cons action later ih =>
      rw [Logger.deliveries, h.snd_perform, ih (h.perform terminal action), List.mapIdx_cons,
        List.take_zero, List.append_nil]
      refine congrArg _ (congrArg (List.mapIdx · later) ?_)
      funext i next
      rw [List.take_succ_cons, List.append_assoc, List.singleton_append]

/-- **What a logger delivers** is told by the actions before: an entry whose level is not `off` and
reaches the threshold of its category goes to every attachment whose sink lets it through, once to
each and in their order; no other action delivers anything.  The attachments are those that no later
action ended, and detaching a sink ends all of its own and leaves the others in their order. -/
theorem deliveries_follow (terminal : Bool) (sinks : List (SinkId × Sink))
    (actions : List Action) :
    deliveries terminal (fresh sinks) actions =
        actions.mapIdx (fun i action => delivered terminal sinks (actions.take i) action) ∧
      (after terminal (fresh sinks) actions).attached = attachments actions ∧
      ∀ id, attachments (actions ++ [.detach id]) = (attachments actions).filter (· ≠ id) :=
  ⟨(follows_fresh sinks).deliveries terminal actions,
    ((follows_fresh sinks).after terminal actions).attached,
    fun _ => attachments_concat_detach⟩

/-- A debugging entry of a category that was opened up. -/
example :
    let e : Entry := ⟨.debug, [0x6b], [], [], 0, 0⟩
    let sinks : List (SinkId × Sink) := [(0, .callback .trace true), (1, .callback .warn true)]
    deliveries false (fresh sinks)
        [.attach 0, .attach 1, .log e, .setCategory [0x6b] .debug, .attach 0, .log e] =
      [[], [], [], [], [], [(0, .handed e), (0, .handed e)]] := by
  decide

end Logger

end CurveKeys
