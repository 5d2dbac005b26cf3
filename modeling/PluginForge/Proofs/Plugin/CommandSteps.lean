import PluginForge.Proofs.Action
import PluginForge.Proofs.Callback.Body
import PluginForge.Proofs.Plugin.Command

namespace PluginForge

open Callback (Handler successReturn)
open Guard (Capability Registry)

variable {body front sender t : Text}

theorem Text.getLast?_splitOn_append (a b : Text) (c : Char) :
    (splitOn c (a ++ c :: b)).getLast? = (splitOn c b).getLast? := by
  rw [splitOn_append_cons, List.getLast?_append_of_ne_nil _ (splitOn_ne_nil c b)]

theorem Text.eq_of_getLast?_splitOn {c : Char} {last : Text}
    (h : (splitOn c t).getLast? = some last) : t = last ∨ ∃ front, t = front ++ c :: last := by
  obtain ⟨front, hfront⟩ := List.getLast?_eq_some_iff.1 h
  have hjoin := join_splitOn c t
  rw [hfront] at hjoin
  cases front with
  | nil =>
    left
    rw [← hjoin, List.nil_append, join, List.intercalate_singleton]
  | cons first rest =>
    right
    rw [join_concat (List.cons_ne_nil _ _)] at hjoin
    exact ⟨_, by rw [← hjoin, List.append_assoc, List.singleton_append]⟩

/-- The last line of the text returns from the handler. -/
def EndsInReturn (t : Text) : Prop :=
  (Text.splitOn '\n' t).getLast? = some successReturn

theorem endsInReturn_append (front : Text) : EndsInReturn (front ++ '\n' :: successReturn) := by
  rw [EndsInReturn, Text.getLast?_splitOn_append]
  decide

theorem endsInReturn_ofSource {source : Text} {handler : Handler}
    (h : Handler.ofSource source = .ok handler) : EndsInReturn handler.body := by
  obtain ⟨statements, hparse, hbody⟩ := Callback.ofSource_cases h
  rw [EndsInReturn, hbody, Callback.splitOn_body hparse fun _ =>
    Callback.newline_not_mem_of_mem_statementLines, Callback.bodyLines]
  exact List.getLast?_concat

namespace Guard

theorem rename_successReturn (h : Java.isIdentifier sender) (localName : Text) :
    rename sender localName successReturn = successReturn := by
  have hwords : ∀ w ∈ words successReturn, Java.isIdentifier w = false := by decide
  apply rename_of_not_mem (Java.isIdentifier_ne_nil h) (Java.all_isIdentifierChar h)
  intro hmem
  rw [hwords sender hmem] at h
  cases h

theorem endsInReturn_rename (h : Java.isIdentifier sender) (localName : Text)
    (hbody : EndsInReturn body) : EndsInReturn (rename sender localName body) := by
  have hne := Java.isIdentifier_ne_nil h
  have hchars := Java.all_isIdentifierChar h
  rcases Text.eq_of_getLast?_splitOn hbody with rfl | ⟨front, rfl⟩
  · rw [rename_successReturn h]
    exact hbody
  · rw [rename_append hne hchars (.inr (by decide)), rename_gap hne hchars (by decide),
      rename_successReturn h]
    exact endsInReturn_append _

theorem preamble_append (capability : Capability) (sender localName rest : Text) :
    ∃ front, preamble capability sender localName ++ rest = front ++ '\n' :: rest := by
  obtain ⟨front, hfront⟩ : ∃ front, preamble capability sender localName = front ++ ['\x7d', '\n'] :=
    ⟨_, rfl⟩
  exact ⟨front ++ ['\x7d'], by rw [hfront, List.append_assoc, List.append_assoc]; rfl⟩

theorem endsInReturn_inject (registry : Registry) (tag : Text) (h : Java.isIdentifier sender)
    (hbody : EndsInReturn body) : EndsInReturn (inject registry body sender tag) := by
  rw [inject]
  split
  · exact hbody
  next capability _ =>
  have hrenamed := endsInReturn_rename h (freshLocal body (localBase tag)) hbody
  obtain ⟨front, hfront⟩ := preamble_append capability sender (freshLocal body (localBase tag))
    (rename sender (freshLocal body (localBase tag)) body)
  rw [guardBody, hfront, EndsInReturn, Text.getLast?_splitOn_append]
  exact hrenamed

end Guard

/-- The class with the guards of calls on its handler, if the sender is known. -/
def CommandClass.guardedBy (k : CommandClass) (sender : Option Text) (calls : List (Registry × Text)) :
    CommandClass :=
  calls.foldl (fun k call => sender.elim k fun sender => k.guard call.1 sender call.2) k

theorem CommandClass.guardedBy_some (k : CommandClass) (sender : Text)
    (calls : List (Registry × Text)) :
    k.guardedBy (some sender) calls = k.withBody
      (calls.foldl (fun body call => Guard.inject call.1 body sender call.2) k.handler.body) := by
  induction calls generalizing k with
  | nil => rfl
  | cons call calls ih => exact ih (k.guard call.1 sender call.2)

theorem CommandClass.exists_guardedBy (k : CommandClass) (sender : Option Text)
    (calls : List (Registry × Text)) : ∃ handler, k.guardedBy sender calls = { k with handler } := by
  cases sender with
  | none =>
    refine ⟨k.handler, ?_⟩
    induction calls with
    | nil => rfl
    | cons call calls ih => exact ih
  | some sender =>
    rw [guardedBy_some]
    exact ⟨_, rfl⟩

namespace Command

/-- The class of a command with this name that has been given a handler. -/
def classOf (name : Text) (handler : Handler) : CommandClass :=
  .ofHandler name ⟨handler.signature, handler.body⟩

/-- A command knows a sender if and only if it has a class. -/
def Together (c : Command) : Prop :=
  c.sender.isSome = c.commandClass.isSome

namespace Step

def handler? : Step → Option Handler
  | .onUse source => (Handler.ofSource source).toOption
  | _ => none

def guard? : Step → Option (Registry × Text)
  | .executeType registry tag => some (registry, tag)
  | _ => none

end Step

variable {c c' : Command} {failure : Failure} {handler : Handler} {name : Text} {step : Step}
  {steps : List Step}

theorem attempt_eq (f : Command → Except Failure Command) (c : Command) :
    (do set (← (f (← get) : Except Failure Command)) : Action Unit) c =
      match f c with
      | .error failure => (.error failure, c)
      | .ok c' => (.ok (), c') := by
  have hget : (get : Action Command) c = (.ok c, c) := rfl
  rw [bind_of_ok hget]
  cases f c with
  | error failure => rfl
  | ok c' => rfl

theorem perform_onUse (c : Command) (source : Text) :
    (Step.onUse source).perform c =
      match c.onUse source with
      | .error failure => (.error failure, c)
      | .ok c' => (.ok (), c') :=
  attempt_eq (fun c => c.onUse source) c

theorem perform_executeType (c : Command) (registry : Registry) (tag : Text) :
    (Step.executeType registry tag).perform c =
      match c.executeType registry tag with
      | .error failure => (.error failure, c)
      | .ok c' => (.ok (), c') :=
  attempt_eq (fun c => c.executeType registry tag) c

theorem perform_error (h : step.perform c = (.error failure, c')) : c' = c := by
  cases step with
  | usage text => cases h
  | description text => cases h
  | aliases names => cases h
  | name text => cases h
  | onUse source =>
    rw [perform_onUse] at h
    split at h
    · cases h
      rfl
    · cases h
  | executeType registry tag =>
    rw [perform_executeType] at h
    split at h
    · cases h
      rfl
    · cases h

theorem perform_handler (h : step.handler? = some handler) (c : Command) :
    step.perform c = (.ok (), { c with
      sender := some handler.parameters.sender
      commandClass := some (classOf c.name handler) }) := by
  cases step with
  | usage text => cases h
  | description text => cases h
  | aliases names => cases h
  | name text => cases h
  | onUse source =>
    rw [Step.handler?] at h
    rw [perform_onUse, onUse]
    cases hsource : Handler.ofSource source with
    | error fault =>
      rw [hsource] at h
      cases h
    | ok read =>
      rw [hsource] at h
      cases h
      rfl
  | executeType registry tag => cases h

theorem perform_kept (h : step.handler? = none) (c : Command) :
    (step.perform c).2.sender = c.sender ∧
      (step.perform c).2.commandClass =
        c.commandClass.map fun k => k.guardedBy c.sender step.guard?.toList := by
  have hsame : c.commandClass = c.commandClass.map fun k => k := Option.map_id'.symm
  cases step with
  | usage text => exact ⟨rfl, hsame⟩
  | description text => exact ⟨rfl, hsame⟩
  | aliases names => exact ⟨rfl, hsame⟩
  | name text => exact ⟨rfl, hsame⟩
  | onUse source =>
    rw [Step.handler?] at h
    rw [perform_onUse, onUse]
    cases hsource : Handler.ofSource source with
    | error fault => exact ⟨rfl, hsame⟩
    | ok read =>
      rw [hsource] at h
      cases h
  | executeType registry tag =>
    rw [perform_executeType, executeType]
    cases hclass : c.commandClass with
    | none => exact ⟨rfl, hclass⟩
    | some k =>
      cases hsender : c.sender with
      | none => exact ⟨hsender, hclass⟩
      | some sender => exact ⟨rfl, rfl⟩

/-- The sender and the class move together: a step sets both or neither. -/
theorem perform_together (step : Step) (h : c.Together) : (step.perform c).2.Together := by
  cases hhandler : step.handler? with
  | none =>
    obtain ⟨hsender, hclass⟩ := perform_kept hhandler c
    rw [Together, hsender, hclass, Option.isSome_map]
    exact h
  | some handler =>
    rw [perform_handler hhandler]
    rfl

/-- The command after steps, each of which is done whether those before it have failed or not. -/
def after (c : Command) (steps : List Step) : Command :=
  steps.foldl (fun c step => (step.perform c).2) c

/-- Some step has given the command a handler. -/
def IsUsed (steps : List Step) : Prop :=
  ∃ step ∈ steps, step.handler?.isSome

theorem after_append (c : Command) (before later : List Step) :
    c.after (before ++ later) = (c.after before).after later :=
  List.foldl_append

theorem after_together (steps : List Step) (h : c.Together) : (c.after steps).Together := by
  induction steps generalizing c with
  | nil => exact h
  | cons step steps ih => exact ih (perform_together step h)

theorem together_after (name : Text) (steps : List Step) : ((ofName name).after steps).Together :=
  after_together steps rfl

theorem after_kept (h : ∀ step ∈ steps, step.handler? = none) (c : Command) :
    (c.after steps).sender = c.sender ∧
      (c.after steps).commandClass =
        c.commandClass.map fun k => k.guardedBy c.sender (steps.filterMap Step.guard?) := by
  induction steps generalizing c with
  | nil => exact ⟨rfl, Option.map_id'.symm⟩
  | cons step steps ih =>
    rw [List.forall_mem_cons] at h
    obtain ⟨hsender, hclass⟩ := perform_kept h.1 c
    have hrest : (c.after (step :: steps)).sender = _ ∧ (c.after (step :: steps)).commandClass = _ :=
      ih h.2 (step.perform c).2
    rw [hsender, hclass, Option.map_map] at hrest
    refine ⟨hrest.1, hrest.2.trans ?_⟩
    cases hguard : step.guard? with
    | none =>
      rw [List.filterMap_cons_none hguard]
      rfl
    | some call =>
      rw [List.filterMap_cons_some hguard]
      rfl

/-- The steps after the last handler decide nothing but its guards. -/
theorem after_handler (before : List Step) {later : List Step} (hhandler : step.handler? = some handler)
    (hlater : ∀ step ∈ later, step.handler? = none) (c : Command) :
    (c.after (before ++ step :: later)).sender = some handler.parameters.sender ∧
      (c.after (before ++ step :: later)).commandClass = some
        ((classOf (c.after before).name handler).withBody
          ((later.filterMap Step.guard?).foldl
            (fun body call => Guard.inject call.1 body handler.parameters.sender call.2)
            handler.body)) := by
  rw [after_append]
  have hused : (c.after before).after (step :: later) = ((step.perform (c.after before)).2).after later :=
    rfl
  rw [hused, perform_handler hhandler]
  obtain ⟨hsender, hclass⟩ := after_kept hlater { c.after before with
    sender := some handler.parameters.sender
    commandClass := some (classOf (c.after before).name handler) }
  rw [Option.map_some, CommandClass.guardedBy_some] at hclass
  exact ⟨hsender, hclass⟩

theorem IsUsed.exists_last (h : IsUsed steps) :
    ∃ before step handler later, steps = before ++ step :: later ∧ step.handler? = some handler ∧
      ∀ step ∈ later, step.handler? = none := by
  induction steps with
  | nil =>
    obtain ⟨_, hmem, -⟩ := h
    cases hmem
  | cons step steps ih =>
    by_cases hrest : IsUsed steps
    · obtain ⟨before, last, handler, later, rfl, hlast⟩ := ih hrest
      exact ⟨step :: before, last, handler, later, rfl, hlast⟩
    · have hlater : ∀ other ∈ steps, other.handler? = none := by
        intro other hother
        rw [← Option.not_isSome_iff_eq_none]
        exact fun hsome => hrest ⟨other, hother, hsome⟩
      obtain ⟨used, hused, hsome⟩ := h
      rcases List.mem_cons.1 hused with rfl | hused
      · obtain ⟨handler, hhandler⟩ := Option.isSome_iff_exists.1 hsome
        exact ⟨[], used, handler, steps, rfl, hhandler, hlater⟩
      · exact absurd ⟨used, hused, hsome⟩ hrest

theorem isSome_commandClass_after (name : Text) (steps : List Step) :
    ((ofName name).after steps).commandClass.isSome ↔ IsUsed steps := by
  constructor
  · intro h
    by_contra hunused
    have hnone : ∀ step ∈ steps, step.handler? = none := by
      intro step hstep
      rw [← Option.not_isSome_iff_eq_none]
      exact fun hsome => hunused ⟨step, hstep, hsome⟩
    rw [(after_kept hnone _).2] at h
    cases h
  · intro h
    obtain ⟨before, step, handler, later, rfl, hhandler, hlater⟩ := h.exists_last
    rw [(after_handler before hhandler hlater _).2]
    rfl

theorem isOk_onUse (c : Command) (source : Text) :
    ((Step.onUse source).perform c).1.isOk = (Handler.ofSource source).isOk := by
  rw [perform_onUse, onUse]
  cases Handler.ofSource source with
  | error fault => rfl
  | ok handler => rfl

theorem isOk_executeType (h : c.Together) (registry : Registry) (tag : Text) :
    ((Step.executeType registry tag).perform c).1.isOk = c.commandClass.isSome := by
  rw [perform_executeType, executeType]
  cases hclass : c.commandClass with
  | none => rfl
  | some k =>
    rw [Together, hclass] at h
    obtain ⟨sender, hsender⟩ := Option.isSome_iff_exists.1 h
    rw [hsender]
    rfl

theorem endsInReturn_guards (calls : List (Registry × Text)) (h : Java.isIdentifier sender)
    (hbody : EndsInReturn body) :
    EndsInReturn (calls.foldl (fun body call => Guard.inject call.1 body sender call.2) body) := by
  induction calls generalizing body with
  | nil => exact hbody
  | cons call calls ih => exact ih (Guard.endsInReturn_inject call.1 call.2 h hbody)

/-- Whatever steps a new command goes through, it has a handler and knows its sender if a step has given it a
handler, and only then can guards be put on it. A step that fails changes nothing. The class and the sender
are those of the last handler, in the body of which nothing but the later guards has been put; it ends with
the return, if the sender has a name that Java allows. -/
theorem handler_of_steps (name : Text) (steps : List Step) :
    let c := (ofName name).after steps
    (c.commandClass.isSome ↔ IsUsed steps) ∧ (c.sender.isSome ↔ IsUsed steps) ∧
      (∀ (step : Step) failure c', step.perform c = (.error failure, c') → c' = c) ∧
      (∀ source, ((Step.onUse source).perform c).1.isOk ↔ (Step.onUse source).handler?.isSome) ∧
      (∀ registry tag, ((Step.executeType registry tag).perform c).1.isOk ↔ IsUsed steps) ∧
      (IsUsed steps → ∃ before step handler later, steps = before ++ step :: later ∧
        step.handler? = some handler ∧ ∀ step ∈ later, step.handler? = none) ∧
      ∀ before step handler later, steps = before ++ step :: later →
        step.handler? = some handler → (∀ step ∈ later, step.handler? = none) →
        let body := (later.filterMap Step.guard?).foldl
          (fun body call => Guard.inject call.1 body handler.parameters.sender call.2) handler.body
        c.sender = some handler.parameters.sender ∧
          c.commandClass =
            some (.ofHandler ((ofName name).after before).name ⟨handler.signature, body⟩) ∧
          (Java.isIdentifier handler.parameters.sender → EndsInReturn body) := by
  intro c
  have hused := isSome_commandClass_after name steps
  have htogether := together_after name steps
  refine ⟨hused, ?_, fun _ _ _ => perform_error, ?_, ?_, IsUsed.exists_last, ?_⟩
  · rw [htogether, hused]
  · intro source
    rw [isOk_onUse, Step.handler?]
    cases Handler.ofSource source <;> rfl
  · intro registry tag
    rw [isOk_executeType htogether, hused]
  · rintro before step handler later rfl hhandler hlater body
    obtain ⟨hsender, hclass⟩ := after_handler before hhandler hlater (ofName name)
    refine ⟨hsender, hclass, ?_⟩
    intro hidentifier
    apply endsInReturn_guards _ hidentifier
    cases step with
    | onUse source =>
      rw [Step.handler?] at hhandler
      cases hsource : Handler.ofSource source with
      | error fault =>
        rw [hsource] at hhandler
        cases hhandler
      | ok read =>
        rw [hsource] at hhandler
        cases hhandler
        exact endsInReturn_ofSource hsource
    | _ => cases hhandler

/-- The last of two callbacks counts, and a callback that cannot be read changes nothing. -/
theorem handler_of_steps_twice :
    let steps : List Step := [.onUse "(s, c, l, a) => \x7b\ns.send(1)\n\x7d", .executeType .builtin "player",
      .onUse "(who, c, l, a) => \x7b\nwho.send(2)\n\x7d", .name "bye", .onUse "none"]
    ((ofName "hello").after steps).sender = some "who".toList ∧
      ((ofName "hello").after steps).commandClass = some (.ofHandler "hello"
        ⟨Callback.Parameters.signature ⟨"who", "c", "l", "a"⟩, "who.send(2);\nreturn true;"⟩) ∧
      EndsInReturn "who.send(2);\nreturn true;" := by
  intro steps
  have hread : (Step.onUse "(who, c, l, a) => \x7b\nwho.send(2)\n\x7d").handler? =
      some ⟨⟨"who", "c", "l", "a"⟩, "who.send(2);\nreturn true;"⟩ := by rfl
  have hlater : ∀ step ∈ [Step.name "bye", .onUse "none"], step.handler? = none := by decide
  have hname : ((ofName "hello").after (steps.take 2)).name = "hello" := by rfl
  obtain ⟨-, -, -, -, -, -, hlast⟩ := handler_of_steps "hello" steps
  obtain ⟨hsender, hclass, hreturn⟩ := hlast (steps.take 2) _ _ _ rfl hread hlater
  rw [hname] at hclass
  exact ⟨hsender, hclass, hreturn (by decide)⟩

end Command

end PluginForge
