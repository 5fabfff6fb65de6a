import ForwardSlicing.Proofs.Transparency
/-!
# Sharing one index

A dependence graph is asked many things, one after the other, and all of them share its index. A `Session` is what such
a history leaves: the index, and the slices that were begun. A slice under way asks one query at a time, and anything may
happen between two of its queries, so slices may be interleaved with each other and with single queries in any way.

What a step keeps: the index stays sound, and a slice under way is still going to end as it would have ended alone on an
empty index (`Faithful`). `index_invisible`: so after any history every query answers what it answers from an empty index,
and every slice ends with what it gives from an empty index.
-/

namespace ForwardSlicing

/-! ## Histories -/

/-- A question to a dependence graph. -/
inductive Query where
  | data (level : Level) (s : Statement)
  | control (level : Level) (s : Statement)
  | successors (data control : Level) (s : Statement)
  | edges (data control : Level) (s : Statement)
  | slice (data control : Level) (limit : Option Int) (seeds : List Statement)
  | slices (data control : Level) (limit : Option Int) (workers : Nat) (seeds : List Statement)

/-- The answer to a question that did not fail. -/
inductive Reply where
  | statements (found : List Statement)
  | edges (found : List (Statement × DependenceKind))
  | slices (found : List (Statement × List Statement))

/-- The statements that a question is about. -/
def Query.about : Query → List Statement
  | .data _ s => [s]
  | .control _ s => [s]
  | .successors _ _ s => [s]
  | .edges _ _ s => [s]
  | .slice _ _ _ seeds => seeds
  | .slices _ _ _ _ seeds => seeds

/-- A slice that is wanted. -/
structure SliceRequest where
  data : Level
  control : Level
  limit : Option Int
  seeds : List Statement

/-- How far a slice has come. -/
inductive SliceProgress where
  | running (pending seen : List Statement)
  | ended (out : Except Failure (List Statement))

structure SliceTask where
  request : SliceRequest
  progress : SliceProgress

/-- Something that happens to a dependence graph: a question, the beginning of a slice, or the next query of a slice that
was begun. -/
inductive Event where
  | ask (q : Query)
  | begin (r : SliceRequest)
  | advance (i : Nat)

/-- The statements that an event is about. -/
def Event.about : Event → List Statement
  | .ask q => q.about
  | .begin r => r.seeds
  | .advance _ => []

def Event.isAdvance (i : Nat) : Event → Bool
  | .advance j => j == i
  | _ => false

/-- The slices that were begun, and the index. -/
structure Session where
  tasks : List SliceTask := []
  index : Index := {}

namespace DependenceGraph

/-- An answer as a reply. -/
def Answer.reply {α : Type} (answer : Answer α) (f : α → Reply) : Answer Reply := (answer.1.map f, answer.2)

variable (g : DependenceGraph)

def ask : Query → Index → Answer Reply
  | .data level s, x => Answer.reply (g.dataSuccessors level s x) .statements
  | .control level s, x => Answer.reply (g.controlSuccessors level s x) .statements
  | .successors data control s, x => Answer.reply (g.successors data control s x) .statements
  | .edges data control s, x => Answer.reply (g.successorEdges data control s x) .edges
  | .slice data control limit seeds, x => Answer.reply (g.forwardSlice data control limit seeds x) .statements
  | .slices data control limit workers seeds, x =>
    Answer.reply (g.forwardSlices data control limit workers seeds x) .slices

/-- The slice all at once. -/
def sliceOf (r : SliceRequest) : Index → Answer (List Statement) := g.forwardSlice r.data r.control r.limit r.seeds

/-- A slice that was begun has asked nothing yet. -/
def begin (r : SliceRequest) : SliceProgress :=
  match g.foreign? r.seeds with
  | some s => .ended (.error (.unknownContext s.context))
  | none =>
    let start := distinct r.seeds
    if overBudget r.limit start.length then .ended (.error (overrun r.limit)) else .running start start

/-- One query of a slice, or its end if nothing is pending. -/
def advance (r : SliceRequest) : SliceProgress → Index → SliceProgress × Index
  | .ended out, x => (.ended out, x)
  | .running [] seen, x => (.ended (.ok seen), x)
  | .running (s :: pending) seen, x =>
    match g.successors r.data r.control s x with
    | (.error e, x) => (.ended (.error e), x)
    | (.ok next, x) =>
      let new := fresh seen next
      if !new.isEmpty && overBudget r.limit (seen.length + new.length) then (.ended (.error (overrun r.limit)), x)
      else (.running (new ++ pending) (seen ++ new), x)

/-- What an event makes of a session. -/
def next (session : Session) : Event → Session
  | .ask q => { session with index := (g.ask q session.index).2 }
  | .begin r => { session with tasks := session.tasks ++ [⟨r, g.begin r⟩] }
  | .advance i =>
    match session.tasks[i]? with
    | none => session
    | some t =>
      let (progress, x) := g.advance t.request t.progress session.index
      ⟨session.tasks.set i { t with progress }, x⟩

/-- The session after a history. -/
def after (history : List Event) : Session := history.foldl g.next {}

/-! ## Questions -/

section Questions
variable {g}

theorem Transparent.reply {α : Type} {query : Index → Answer α} (h : g.Transparent query) (f : α → Reply) :
    g.Transparent fun x => Answer.reply (query x) f := by
  intro x hx
  obtain ⟨hanswer, hsound⟩ := h x hx
  exact ⟨congrArg (Except.map f) hanswer, hsound⟩

theorem transparent_ask {S : Set Context} (hS : OneBody S) (hg : g.calls.Over S) {q : Query}
    (hknown : ∀ s ∈ q.about, g.Known s) : g.Transparent (g.ask q) := by
  have hone : OneBody {c | c ∈ g.calls.nodes} := hS.mono hg.node
  cases q with
  | data level s => exact (transparent_dataSuccessors level hone (hknown s (by simp [Query.about]))).reply _
  | control level s => exact (transparent_controlSuccessors level hone (hknown s (by simp [Query.about]))).reply _
  | successors data control s =>
    exact (transparent_successors hone (hknown s (by simp [Query.about])) data control).reply _
  | edges data control s =>
    exact (transparent_successorEdges hone (hknown s (by simp [Query.about])) data control).reply _
  | slice data control limit seeds => exact (transparent_forwardSlice hS hg data control limit hknown).reply _
  | slices data control limit workers seeds =>
    exact (transparent_forwardSlices hS hg data control limit workers hknown).reply _

end Questions

/-! ## Slices under way -/

section UnderWay
variable (r : SliceRequest)

/-- A slice has ended as it does alone on an empty index, or is going to. -/
inductive Faithful : SliceProgress → Prop
  | ended {out : Except Failure (List Statement)} : out = (g.sliceOf r {}).1 → Faithful (.ended out)
  | running {pending seen : List Statement} : (∀ s ∈ r.seeds, s.context ∈ g.calls.nodes) →
      g.UnderWay r.seeds pending seen →
      remaining (g.statementBound r.seeds {}) pending seen ≤ g.statementBound r.seeds {} →
      (g.expand r.data r.control r.limit (remaining (g.statementBound r.seeds {}) pending seen) pending seen {}).1 =
        (g.sliceOf r {}).1 → Faithful (.running pending seen)

/-- The number of steps that a slice may still take. -/
def effort : SliceProgress → Nat
  | .running pending seen => remaining (g.statementBound r.seeds {}) pending seen + 1
  | .ended _ => 0

variable {g r} {p : SliceProgress}

theorem Faithful.effort_le (h : g.Faithful r p) : g.effort r p ≤ g.statementBound r.seeds {} + 1 := by
  cases h with
  | ended => exact Nat.zero_le _
  | running _ _ hle _ => exact Nat.succ_le_succ hle

theorem Faithful.ended_of_effort (h : g.Faithful r p) (he : g.effort r p = 0) : p = .ended (g.sliceOf r {}).1 := by
  cases h with
  | ended hout => rw [hout]
  | running => cases he

theorem faithful_begin (hr : ∀ s ∈ r.seeds, g.Known s) : g.Faithful r (g.begin r) := by
  cases hf : g.foreign? r.seeds with
  | some s =>
    simp only [begin, hf]
    exact .ended (by simp [sliceOf, forwardSlice, hf])
  | none =>
    cases hw : overBudget r.limit (distinct r.seeds).length with
    | true =>
      simp only [begin, hf, hw, if_true]
      exact .ended (by simp [sliceOf, forwardSlice, hf, hw])
    | false =>
      simp only [begin, hf, hw, Bool.false_eq_true, if_false]
      have hnode : ∀ s ∈ r.seeds, s.context ∈ g.calls.nodes := fun s hs =>
        hr s hs (foreign?_eq_none_iff.1 hf s hs)
      have hstart := remaining_start (room_statementBound (g := g) r.seeds {})
      refine .running hnode (underWay_start r.seeds) (by rw [hstart]) ?_
      rw [hstart]
      simp only [sliceOf, forwardSlice, hf, hw, Bool.false_eq_true, if_false]
      rcases g.expand r.data r.control r.limit (g.statementBound r.seeds {}) (distinct r.seeds) (distinct r.seeds) {} with
        ⟨_ | slice, x⟩ <;> rfl

variable {S : Set Context} (hS : OneBody S) (hg : g.calls.Over S)
include hS hg

/-- One query of a slice, from any sound index: the slice stays faithful, comes closer to its end, and leaves a sound
index. -/
theorem faithful_advance (h : g.Faithful r p) {x : Index} (hx : x.Sound g.calls) :
    g.Faithful r (g.advance r p x).1 ∧ g.effort r (g.advance r p x).1 ≤ g.effort r p - 1 ∧
      (g.advance r p x).2.Sound g.calls := by
  cases h with
  | ended hout => exact ⟨.ended hout, Nat.le_refl 0, hx⟩
  | @running pending seen hnode hway hle hout =>
    cases pending with
    | nil =>
      refine ⟨.ended ?_, Nat.zero_le _, hx⟩
      rw [← hout]
      cases remaining (g.statementBound r.seeds {}) [] seen <;> rfl
    | cons s pending =>
      have hroom := room_statementBound (g := g) r.seeds {}
      have hempty := Index.sound_empty g.calls
      obtain ⟨htransparent, hreach⟩ := transparent_inReach hS hg r.data r.control hnode (hway.pending s (by simp))
      obtain ⟨hanswer, hx'⟩ := htransparent x hx
      obtain ⟨-, hx₀⟩ := htransparent {} hempty
      obtain ⟨k, hk⟩ : ∃ k, remaining (g.statementBound r.seeds {}) (s :: pending) seen = k + 1 :=
        ⟨_, Nat.succ_add _ _⟩
      simp only [hk, expand] at hout
      simp only [advance]
      revert hanswer hx' hout hx₀ hreach
      rcases g.successors r.data r.control s x with ⟨out, x'⟩
      rcases g.successors r.data r.control s {} with ⟨out₀, x₀⟩
      rintro hreach rfl hx' hx₀ hout
      cases out with
      | error e => exact ⟨.ended hout, Nat.zero_le _, hx'⟩
      | ok next =>
        have hway' := hway.step (hreach next rfl)
        have hless := hway.remaining_step (hreach next rfl) hroom
        dsimp only at hout ⊢
        split
        case isTrue hover =>
          rw [if_pos hover] at hout
          exact ⟨.ended hout, Nat.zero_le _, hx'⟩
        case isFalse hwithin =>
          rw [if_neg hwithin] at hout
          refine ⟨.running hnode hway' (by omega) ?_, hless, hx'⟩
          -- what is left of the fuel covers what remains, and the tables built so far change nothing
          rw [← hout]
          exact (expand_eq hS hg r.data r.control r.limit hnode hroom _ _ hempty hx₀ hway' (Nat.le_refl _) (by omega)).1

end UnderWay

/-! ## Sessions -/

section Sessions

/-- The index of a session is sound and its slices are faithful. -/
structure Consistent (session : Session) : Prop where
  index : session.index.Sound g.calls
  tasks : ∀ t ∈ session.tasks, g.Faithful t.request t.progress

theorem consistent_empty : g.Consistent {} := ⟨Index.sound_empty g.calls, fun _ h => absurd h (by simp)⟩

variable {g} {S : Set Context} (hS : OneBody S) (hg : g.calls.Over S) {session : Session}
include hS hg

theorem Consistent.next (h : g.Consistent session) {e : Event} (he : ∀ s ∈ e.about, g.Known s) :
    g.Consistent (g.next session e) := by
  cases e with
  | ask q => exact ⟨(transparent_ask hS hg he _ h.index).2, h.tasks⟩
  | begin r =>
    refine ⟨h.index, fun t ht => ?_⟩
    rcases List.mem_append.1 ht with ht | ht
    · exact h.tasks t ht
    · rw [List.mem_singleton.1 ht]
      exact faithful_begin he
  | advance i =>
    simp only [DependenceGraph.next]
    split
    · exact h
    case h_2 t ht =>
      obtain ⟨hfaithful, -, hsound⟩ := faithful_advance hS hg (h.tasks t (List.mem_of_getElem? ht)) h.index
      refine ⟨hsound, fun t' ht' => ?_⟩
      rcases List.mem_or_eq_of_mem_set ht' with ht' | rfl
      · exact h.tasks t' ht'
      · exact hfaithful

/-- A query of a slice brings it closer to its end, and no event brings it further away. -/
theorem task_next (h : g.Consistent session) {i : Nat} {t : SliceTask} (ht : session.tasks[i]? = some t) (e : Event) :
    ∃ t', (g.next session e).tasks[i]? = some t' ∧ t'.request = t.request ∧
      g.effort t.request t'.progress ≤ g.effort t.request t.progress - if e.isAdvance i then 1 else 0 := by
  have hlt : i < session.tasks.length := (List.getElem?_eq_some_iff.1 ht).1
  cases e with
  | ask q => exact ⟨t, ht, rfl, Nat.le_refl _⟩
  | begin r => exact ⟨t, by rw [next, List.getElem?_append_left hlt, ht], rfl, Nat.le_refl _⟩
  | advance j =>
    by_cases hij : j = i
    · subst hij
      obtain ⟨-, hless, -⟩ := faithful_advance hS hg (h.tasks t (List.mem_of_getElem? ht)) h.index
      refine ⟨⟨t.request, (g.advance t.request t.progress session.index).1⟩, ?_, rfl, ?_⟩
      · simp only [next, ht]
        exact List.getElem?_set_self hlt
      · simpa [Event.isAdvance] using hless
    · refine ⟨t, ?_, rfl, by simp [Event.isAdvance, hij]⟩
      simp only [next]
      split
      · exact ht
      · rw [List.getElem?_set_ne hij, ht]

theorem task_foldl (history : List Event) (hhistory : ∀ e ∈ history, ∀ s ∈ e.about, g.Known s) {i : Nat} :
    ∀ {session : Session} {t : SliceTask}, g.Consistent session → session.tasks[i]? = some t →
      g.Consistent (history.foldl g.next session) ∧
      ∃ t', (history.foldl g.next session).tasks[i]? = some t' ∧ t'.request = t.request ∧
        g.effort t.request t'.progress ≤ g.effort t.request t.progress - history.countP (·.isAdvance i) := by
  induction history with
  | nil => exact fun {session t} h ht => ⟨h, t, ht, rfl, Nat.le_refl _⟩
  | cons e history ih =>
    intro session t h ht
    obtain ⟨t₁, ht₁, hr₁, hless₁⟩ := task_next hS hg h ht e
    obtain ⟨hend, t₂, ht₂, hr₂, hless₂⟩ := ih (fun e' he' => hhistory e' (List.mem_cons_of_mem _ he'))
      (h.next hS hg (hhistory e (by simp))) ht₁
    refine ⟨hend, t₂, ht₂, hr₂.trans hr₁, ?_⟩
    rw [hr₁] at hless₂
    rw [List.countP_cons]
    omega

end Sessions

end DependenceGraph

/-! ## Any history -/

namespace Sample

theorem over_contexts : fine.calls.Over contexts where
  node c hc := by
    simp only [fine, List.mem_cons, List.not_mem_nil, or_false] at hc
    rcases hc with rfl | rfl | rfl
    · exact .inl rfl
    · exact .inr rfl
    · exact .inr rfl
  caller := fine_loaded.wellFormed.caller
  callee := fine_loaded.wellFormed.callee
  site := fine_loaded.wellFormed.site

/-- A statement of a context that no analysis has, with a body of its own. -/
def stray : Statement := .of ⟨{ walk with body := [] }, "elsewhere"⟩ .entry

/-- Two slices that take turns, the first one with a budget that it exceeds, and a question about a stray statement
between their queries. -/
def turns : List Event :=
  [.begin ⟨.full, .full, some 2, [store]⟩, .begin ⟨.full, .full, none, [.of outer .entry]⟩, .advance 1, .advance 0,
    .ask (.data .full stray), .advance 1, .advance 0]

end Sample

namespace DependenceGraph

/-- After any history, of single questions and of slices that are interleaved with them and with each other: every
question is answered as from an empty index, also where the answer is a failure; a slice that has ended gave what it gives
alone; and a slice that is given enough queries ends, whatever else happens. -/
theorem index_invisible {g : DependenceGraph} {S : Set Context} (hS : OneBody S) (hg : g.calls.Over S)
    {history : List Event} (hhistory : ∀ e ∈ history, ∀ s ∈ e.about, g.Known s) :
    (∀ q : Query, (∀ s ∈ q.about, g.Known s) → (g.ask q (g.after history).index).1 = (g.ask q {}).1) ∧
    (∀ t ∈ (g.after history).tasks, ∀ out, t.progress = .ended out → out = (g.sliceOf t.request {}).1) ∧
    ∀ i t, (g.after history).tasks[i]? = some t →
      ∀ more : List Event, (∀ e ∈ more, ∀ s ∈ e.about, g.Known s) →
        g.statementBound t.request.seeds {} < more.countP (·.isAdvance i) →
        (g.after (history ++ more)).tasks[i]? = some ⟨t.request, .ended (g.sliceOf t.request {}).1⟩ := by
  have hconsistent : g.Consistent (g.after history) := by
    unfold after
    exact List.foldlRecOn history g.next (consistent_empty g) fun session h e he => h.next hS hg (hhistory e he)
  refine ⟨fun q hq => (transparent_ask hS hg hq _ hconsistent.index).1, fun t ht out hout => ?_, ?_⟩
  · have hfaithful := hconsistent.tasks t ht
    rw [hout] at hfaithful
    cases hfaithful with
    | ended h => exact h
  · intro i t ht more hmore hcount
    obtain ⟨hend, ⟨r, p⟩, ht', hr, hless⟩ := task_foldl hS hg more hmore hconsistent ht
    obtain rfl : r = t.request := hr
    have hle := (hconsistent.tasks t (List.mem_of_getElem? ht)).effort_le
    have hzero : g.effort t.request p = 0 := by
      dsimp only at hless
      omega
    have hended : p = .ended (g.sliceOf t.request {}).1 :=
      (hend.tasks _ (List.mem_of_getElem? ht')).ended_of_effort hzero
    rw [after, List.foldl_append, ← hended]
    exact ht'

/-- The first of the two slices has failed with its budget, as it does alone, and a whole slice of the same seed without a
budget is not affected. -/
theorem index_invisible_turns : OneBody Sample.contexts ∧ Sample.fine.dependence.calls.Over Sample.contexts ∧
    (Sample.fine.dependence.ask (.data .full Sample.stray) {}).1 = .error (.unknownContext Sample.stray.context) ∧
    (Sample.fine.dependence.sliceOf ⟨.full, .full, some 2, [Sample.store]⟩ {}).1 = .error (.truncated (.int 2)) ∧
    (Sample.fine.dependence.ask (.slice .full .full none [Sample.store])
      (Sample.fine.dependence.after Sample.turns).index).1 =
      (Sample.fine.dependence.ask (.slice .full .full none [Sample.store]) {}).1 := by
  have hstore : Sample.fine.dependence.Known Sample.store := fun _ => List.mem_cons_self
  have hhistory : ∀ e ∈ Sample.turns, ∀ s ∈ e.about, Sample.fine.dependence.Known s := by
    have houter : Sample.fine.dependence.Known (.of Sample.outer .entry) := fun _ => by simp [Model.dependence, Sample.fine]
    have hstray : Sample.fine.dependence.Known Sample.stray := fun h => absurd h (by decide)
    simp [Sample.turns, Event.about, Query.about, hstore, houter, hstray]
  obtain ⟨hanswers, hended, -⟩ := index_invisible (g := Sample.fine.dependence) Sample.oneBody_contexts
    Sample.over_contexts hhistory
  have htask : (Sample.fine.dependence.after Sample.turns).tasks[0]? =
      some ⟨⟨.full, .full, some 2, [Sample.store]⟩, .ended (.error (.truncated (.int 2)))⟩ := by rfl
  refine ⟨Sample.oneBody_contexts, Sample.over_contexts, by rfl, ?_, hanswers _ (by simpa [Query.about] using hstore)⟩
  exact (hended _ (List.mem_of_getElem? htask) _ rfl).symm

end DependenceGraph
end ForwardSlicing
