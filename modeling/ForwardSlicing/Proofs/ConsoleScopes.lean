import Mathlib.Data.List.Infix
import Mathlib.Logic.Relation
import ForwardSlicing.Console
/-!
# Scopes are bracketed

A program does three things to a console: it begins a scope, it ends one, or it says something (`Call`). Blocks, failures and
attempts only choose which of these are done (`calls_performAll`), so what every call keeps holds after every program.

`Call.bracketed`: on a verbose console every end event has the path of the latest begin event that has not ended, and the
begin events that have not ended are the scopes of the current path. `closes_of_scopes`: a block whose steps keep the open
scopes ends the scope that it began, also if it was cut short; `scopes_perform` says which steps do.
-/

namespace ForwardSlicing

open Relation

/-! ## Events -/

/-- The paths of the begin events that wait for their end after a line, the latest first. An end event ends the latest. -/
def ConsoleLine.pend (waiting : List (List String)) : ConsoleLine → List (List String)
  | .began path => path :: waiting
  | .ended _ _ => waiting.tail
  | .said _ _ => waiting

namespace Console

/-- The paths of the begin events that have not ended, the latest first. -/
def pending (lines : List ConsoleLine) : List (List String) := lines.foldl ConsoleLine.pend []

/-- Every end event has the path of the latest begin event that has not ended. -/
def Matched (lines : List ConsoleLine) : Prop :=
  ∀ before path elapsed behind, lines = before ++ .ended path elapsed :: behind → (pending before).head? = some path

/-- The events are matched, and the begin events that have not ended are the scopes of the current path, outermost first. -/
structure Bracketed (c : Console) : Prop where
  matched : Matched c.lines
  opened : (pending c.lines).reverse = c.path.inits.tail

theorem pending_concat (lines : List ConsoleLine) (line : ConsoleLine) :
    pending (lines ++ [line]) = line.pend (pending lines) := by
  simp [pending]

theorem Matched.concat {lines : List ConsoleLine} (h : Matched lines) {line : ConsoleLine}
    (hline : ∀ path elapsed, line = .ended path elapsed → (pending lines).head? = some path) : Matched (lines ++ [line]) := by
  intro before path elapsed behind heq
  rcases List.eq_nil_or_concat behind with rfl | ⟨behind, last, rfl⟩
  · obtain ⟨rfl, hlast⟩ := List.append_inj' heq rfl
    exact hline path elapsed (List.singleton_inj.1 hlast)
  · have hsplit : lines ++ [line] = (before ++ .ended path elapsed :: behind) ++ [last] := by simpa using heq
    exact h before path elapsed behind (List.append_inj' hsplit rfl).1

theorem bracketed_fresh (verbose : Bool) : Bracketed { verbose := verbose } where
  matched before path elapsed behind h := by simp at h
  opened := rfl

/-! ## What a call does -/

section Calls
variable (c : Console) (now : Binary64) (name : String)

theorem begin_eq : c.begin now name = { c with
    scopes := ⟨name, now⟩ :: c.scopes
    lines := c.lines ++ if c.verbose then [.began (c.path ++ [name])] else []
    readings := c.readings + 1 } := by
  cases hc : c.verbose <;> simp [begin, writeIfVerbose, write, path, hc]

theorem finish_root (h : c.scopes = []) : c.finish now = (false, { c with readings := c.readings + 1 }) := by
  simp [finish, h]

theorem finish_eq {s : Scope} {rest : List Scope} (h : c.scopes = s :: rest) : c.finish now = (true, { c with
    scopes := rest
    last := some ⟨s, now⟩
    lines := c.lines ++ if c.verbose then [.ended c.path (now.sub s.start)] else []
    readings := c.readings + 1 }) := by
  cases hc : c.verbose <;> simp [finish, writeIfVerbose, write, h, hc, Lap.elapsed]

theorem path_begin : (c.begin now name).path = c.path ++ [name] := by
  simp [begin_eq, path]

theorem path_finish : (c.finish now).2.path = c.path.dropLast := by
  cases hs : c.scopes with
  | nil => simp [finish_root c now hs, path, hs]
  | cons s rest => simp [finish_eq c now hs, path, hs]

end Calls

/-- What a call does to a console. -/
inductive Call : Console → Console → Prop
  | begin (c : Console) (now : Binary64) (name : String) : Call c (c.begin now name)
  | finish (c : Console) (now : Binary64) : Call c (c.finish now).2
  | say (c : Console) (tabs : Int) (text : String) : Call c (c.write (.said tabs text))

variable {c c' : Console}

theorem Call.verbose_eq (h : Call c c') : c'.verbose = c.verbose := by
  cases h with
  | begin now name => rw [begin_eq]
  | finish now =>
    cases hs : c.scopes with
    | nil => rw [finish_root c now hs]
    | cons s rest => rw [finish_eq c now hs]
  | say tabs text => rfl

theorem inits_concat (path : List String) (name : String) :
    (path ++ [name]).inits.tail = path.inits.tail ++ [path ++ [name]] := by
  cases path <;> simp

/-- A call keeps a verbose console bracketed. -/
theorem Call.bracketed (h : Call c c') (hverbose : c.verbose = true) (hc : c.Bracketed) : c'.Bracketed := by
  cases h with
  | begin now name =>
    have hlines : (c.begin now name).lines = c.lines ++ [.began (c.path ++ [name])] := by simp [begin_eq, hverbose]
    refine ⟨hlines ▸ hc.matched.concat (by simp), ?_⟩
    rw [hlines, path_begin, pending_concat, ConsoleLine.pend, List.reverse_cons, hc.opened, inits_concat]
  | finish now =>
    cases hs : c.scopes with
    | nil =>
      rw [finish_root c now hs]
      exact ⟨hc.matched, hc.opened⟩
    | cons s rest =>
      -- the current scope is the latest that waits for its end
      have hpath : c.path = (rest.map (·.name)).reverse ++ [s.name] := by simp [path, hs]
      have hlatest : pending c.lines = c.path :: (rest.map (·.name)).reverse.inits.tail.reverse := by
        rw [← List.reverse_inj, hc.opened, hpath, inits_concat, List.reverse_cons, List.reverse_reverse]
      rw [finish_eq c now hs]
      simp only [hverbose, if_true]
      refine ⟨hc.matched.concat ?_, ?_⟩
      · rintro path elapsed ⟨rfl, -⟩
        rw [hlatest, List.head?_cons]
      · rw [pending_concat, ConsoleLine.pend, hlatest, List.tail_cons, List.reverse_reverse]
        rfl
  | say tabs text =>
    refine ⟨hc.matched.concat (by simp), ?_⟩
    rw [write, pending_concat, ConsoleLine.pend]
    exact hc.opened

/-! ## What a program does -/

section Programs
variable (clock : Nat → Binary64)

/-- A block begins its scope, performs its steps and ends the scope that is current then. -/
theorem perform_scope {name : String} {steps : List ConsoleStep} {done : Bool}
    (h : performAll clock steps (c.begin (clock c.readings) name) = (done, c')) : perform clock (.scope name steps) c =
      (done && (c'.finish (clock c'.readings)).1, (c'.finish (clock c'.readings)).2) := by
  rw [perform, h]

/-- A list of steps ends with its first step, or with the others after it. -/
theorem performAll_cons (s : ConsoleStep) (rest : List ConsoleStep) (c : Console) :
    performAll clock (s :: rest) c = (false, (perform clock s c).2) ∨
      performAll clock (s :: rest) c = performAll clock rest (perform clock s c).2 := by
  rw [performAll]
  rcases perform clock s c with ⟨done, c'⟩
  cases done with
  | true => exact .inr rfl
  | false => exact .inl rfl

mutual

/-- A step is a sequence of calls. -/
theorem calls_perform : ∀ (s : ConsoleStep) (c : Console), ReflTransGen Call c (perform clock s c).2
  | .begin name, c => .single (.begin c _ name)
  | .finish, c => .single (.finish c _)
  | .output text tabs, c => .single (.say c tabs text)
  | .verbose text tabs, c => by
    rw [perform, writeIfVerbose]
    split
    · exact .single (.say c tabs text)
    · exact .refl
  | .scope name steps, c => by
    rw [perform_scope clock rfl]
    exact .head (.begin c _ name) (.tail (calls_performAll steps _) (.finish _ _))
  | .fail, _ => .refl
  | .attempt steps, c => calls_performAll steps c

/-- A program is a sequence of calls. -/
theorem calls_performAll : ∀ (steps : List ConsoleStep) (c : Console), ReflTransGen Call c (performAll clock steps c).2
  | [], _ => .refl
  | s :: rest, c => by
    rcases performAll_cons clock s rest c with h | h <;> rw [h]
    · exact calls_perform s c
    · exact .trans (calls_perform s c) (calls_performAll rest _)

end

theorem verbose_of_calls (h : ReflTransGen Call c c') : c'.verbose = c.verbose := by
  induction h with
  | refl => rfl
  | tail _ hcall ih => exact hcall.verbose_eq.trans ih

theorem bracketed_of_calls (h : ReflTransGen Call c c') (hverbose : c.verbose = true) (hc : c.Bracketed) :
    c'.Bracketed := by
  induction h with
  | refl => exact hc
  | tail hcalls hcall ih => exact hcall.bracketed ((verbose_of_calls hcalls).trans hverbose) ih

end Programs
end Console

/-! ## Blocks -/

/-- A step that begins and ends scopes as a block only. -/
inductive ConsoleStep.Scoped : ConsoleStep → Prop
  | output (text : String) (tabs : Int) : Scoped (.output text tabs)
  | verbose (text : String) (tabs : Int) : Scoped (.verbose text tabs)
  | scope (name : String) {steps : List ConsoleStep} : (∀ s ∈ steps, Scoped s) → Scoped (.scope name steps)
  | fail : Scoped .fail
  | attempt {steps : List ConsoleStep} : (∀ s ∈ steps, Scoped s) → Scoped (.attempt steps)

namespace Console

section Blocks
variable (clock : Nat → Binary64)

theorem scopes_performAll {steps : List ConsoleStep} (h : ∀ s ∈ steps, ∀ c, (perform clock s c).2.scopes = c.scopes)
    (c : Console) : (performAll clock steps c).2.scopes = c.scopes := by
  induction steps generalizing c with
  | nil => rfl
  | cons s rest ih =>
    rw [List.forall_mem_cons] at h
    rcases performAll_cons clock s rest c with heq | heq <;> rw [heq]
    · exact h.1 c
    · exact (ih h.2 _).trans (h.1 c)

/-- What a block leaves behind: the scope that was current before it, and as the last scope its own, which began with the
block and ended with the last reading of the clock. -/
structure Closes (name : String) (c after : Console) (stop : Nat) : Prop where
  current : after.scopes = c.scopes
  last : after.last = some ⟨⟨name, clock c.readings⟩, clock stop⟩
  stopped : after.readings = stop + 1
  event : c.verbose = true →
    after.lines.getLast? = some (.ended (c.path ++ [name]) ((clock stop).sub (clock c.readings)))

/-- A block whose steps keep the open scopes ends its own scope, and fails only if its steps do. -/
theorem closes_of_scopes (name : String) {steps : List ConsoleStep}
    (h : ∀ c, (performAll clock steps c).2.scopes = c.scopes) (c : Console) : ∃ after stop,
      perform clock (.scope name steps) c = ((performAll clock steps (c.begin (clock c.readings) name)).1, after) ∧
      Closes clock name c after stop := by
  obtain ⟨done, c', hbody⟩ : ∃ done c', performAll clock steps (c.begin (clock c.readings) name) = (done, c') :=
    ⟨_, _, rfl⟩
  have hscopes : c'.scopes = ⟨name, clock c.readings⟩ :: c.scopes := by
    have hkept := h (c.begin (clock c.readings) name)
    rwa [hbody, begin_eq] at hkept
  have hverbose : c'.verbose = c.verbose := by
    have hcalls := calls_performAll clock steps (c.begin (clock c.readings) name)
    rw [hbody] at hcalls
    exact verbose_of_calls (.head (.begin c _ name) hcalls)
  have hpath : c'.path = c.path ++ [name] := by simp [path, hscopes]
  refine ⟨(c'.finish (clock c'.readings)).2, c'.readings, ?_, ?_⟩
  · rw [perform_scope clock hbody, finish_eq c' _ hscopes, hbody, Bool.and_true]
  · rw [finish_eq c' _ hscopes]
    refine ⟨rfl, rfl, rfl, fun hc => ?_⟩
    simp [hverbose, hc, hpath]

/-- Blocks keep the open scopes, at whatever depth they are cut short. -/
theorem scopes_perform {s : ConsoleStep} (hs : s.Scoped) (c : Console) : (perform clock s c).2.scopes = c.scopes := by
  induction hs generalizing c with
  | output text tabs => rfl
  | verbose text tabs =>
    rw [perform, writeIfVerbose]
    split <;> rfl
  | scope name _ ih =>
    obtain ⟨after, stop, heq, hcloses⟩ := closes_of_scopes clock name (scopes_performAll clock ih) c
    rw [heq]
    exact hcloses.current
  | fail => rfl
  | attempt _ ih => exact scopes_performAll clock ih c

/-- After any program a verbose console is bracketed, where a begin adds its name to the path and an end takes the last one
off. An end without an open scope fails and changes nothing but the number of readings. A block whose steps leave scopes to
blocks keeps the current scope and leaves its own as the last. -/
theorem performAll_bracketed :
    (∀ program, (performAll clock program { verbose := true }).2.Bracketed) ∧
    (∀ (c : Console) (name : String), (perform clock (.begin name) c).2.path = c.path ++ [name]) ∧
    (∀ c : Console, (perform clock .finish c).2.path = c.path.dropLast) ∧
    (∀ c : Console, c.scopes = [] → perform clock .finish c = (false, { c with readings := c.readings + 1 })) ∧
    ∀ (name : String) (body : List ConsoleStep), (∀ s ∈ body, s.Scoped) → ∀ c, ∃ after stop,
      perform clock (.scope name body) c = ((performAll clock body (c.begin (clock c.readings) name)).1, after) ∧
      Closes clock name c after stop := by
  refine ⟨fun program => ?_, fun c name => ?_, fun c => ?_, fun c hc => ?_, fun name body hbody c => ?_⟩
  · exact bracketed_of_calls (calls_performAll clock program _) rfl (bracketed_fresh true)
  · rw [perform, path_begin]
  · rw [perform, path_finish]
  · rw [perform, finish_root c _ hc]
  · exact closes_of_scopes clock name (scopes_performAll clock fun s hs => scopes_perform clock (hbody s hs)) c

end Blocks
end Console

namespace Sample

/-- A clock that is read once a second. -/
def seconds (n : Nat) : Binary64 := .ofInt n

/-- An end without a scope, a block that is cut short with a scope open in it, and a block that ends more scopes than its
own. -/
def interrupted : List ConsoleStep :=
  [.attempt [.finish], .begin "run", .attempt [.scope "load" [.begin "parse", .output "model" 1, .fail]],
    .attempt [.scope "slice" [.finish, .finish, .finish]], .begin "report"]

/-- A block that is cut short inside another. -/
def failing : List ConsoleStep := [.output "model" 1, .scope "parse" [.fail], .verbose "parsed" 1]

end Sample

/-- Only the scope that began after the last of these blocks is open. The failing block still ends its own scope. -/
theorem Console.performAll_bracketed_interrupted :
    (performAll Sample.seconds Sample.interrupted { verbose := true }).2.path = ["report"] ∧
    pending (performAll Sample.seconds Sample.interrupted { verbose := true }).2.lines = [["report"]] ∧
    (perform Sample.seconds .finish { verbose := true }).1 = false ∧
    (∀ s ∈ Sample.failing, s.Scoped) ∧
    ∃ after stop, perform Sample.seconds (.scope "load" Sample.failing) { verbose := true } = (false, after) ∧
      Closes Sample.seconds "load" { verbose := true } after stop := by
  obtain ⟨hbracketed, -, -, hroot, hblock⟩ := performAll_bracketed Sample.seconds
  have hpath : (performAll Sample.seconds Sample.interrupted { verbose := true }).2.path = ["report"] := rfl
  have hopened := (hbracketed Sample.interrupted).opened
  rw [hpath, List.reverse_eq_iff] at hopened
  have hscoped : ∀ s ∈ Sample.failing, s.Scoped := by
    have hparse : (ConsoleStep.scope "parse" [.fail]).Scoped := .scope _ (List.forall_mem_singleton.2 .fail)
    simp [Sample.failing, hparse, ConsoleStep.Scoped.output, ConsoleStep.Scoped.verbose]
  have hfails : (performAll Sample.seconds Sample.failing
      (Console.begin (Sample.seconds 0) "load" { verbose := true })).1 = false := rfl
  obtain ⟨after, stop, heq, hcloses⟩ := hblock "load" Sample.failing hscoped { verbose := true }
  exact ⟨hpath, hopened, by rw [hroot _ rfl], hscoped, after, stop, by rw [heq, hfails], hcloses⟩

end ForwardSlicing
