import ForwardSlicing.Proofs.ControlClosure
import ForwardSlicing.Proofs.Slice
/-!
# The slice of an entry

From the entry of a procedure, full control dependence alone leads to the code that control can reach: in the procedure
itself, and in every procedure that a call among that code may enter. `slice_entry`: the slice has all of this code and
nothing else, so dead code and what only dead code calls are never in it.
-/

namespace ForwardSlicing

open Relation

/-! ## Code that control can reach -/

/-- Control can reach the instruction from the entry of its body. -/
def Context.Live (c : Context) (i : Nat) : Prop := c.procedure.flow.Reaches .entry (.instr i)

/-- Control may go from a context into another one, at a call that it can reach. -/
def CallGraph.Enters (g : CallGraph) (c d : Context) : Prop := ∃ i, .of c i d ∈ g.edges ∧ c.HasCall i ∧ c.Live i

/-- The points of a context that control can reach once it is entered: the entry, the parameters, and what is executed
with an instruction that control can reach. -/
inductive Context.Runs (c : Context) : Point → Prop
  | entry : c.Runs .entry
  | param {k : Nat} : k < c.procedure.params → c.Runs (.param k)
  | code {i : Nat} {p : Point} : c.Live i → c.Executes i p → c.Runs p

theorem Context.Runs.in {c : Context} {p : Point} (h : c.Runs p) : p.In c := by
  cases h with
  | entry => trivial
  | param hk => exact hk
  | code _ hp => exact hp.in

/-- Points of instructions run only if control can reach the instruction. -/
theorem Context.Runs.live {c : Context} {p : Point} (h : c.Runs p) {i : Nat} (hi : p.instruction? = some i) :
    c.Live i := by
  cases h with
  | entry => cases hi
  | param => cases hi
  | code hl hp =>
    cases hp with
    | exit => cases hi
    | normal => exact Option.some.inj hi ▸ hl
    | result => exact Option.some.inj hi ▸ hl
    | argument => exact Option.some.inj hi ▸ hl

namespace DependenceGraph

variable {g : DependenceGraph} {c d : Context}

/-- The statements that control can reach from the entry of a context. -/
def ranFrom (g : DependenceGraph) (c : Context) : Set Statement :=
  {s | ∃ d p, ReflTransGen g.calls.Enters c d ∧ d.Runs p ∧ s = .of d p}

theorem node_of_enters (hg : g.calls.WellFormed) (hc : c ∈ g.calls.nodes) (hd : ReflTransGen g.calls.Enters c d) :
    d ∈ g.calls.nodes := by
  cases hd with
  | refl => exact hc
  | tail _ hd =>
    obtain ⟨i, he, -⟩ := hd
    exact hg.callee _ he

/-! ## The closure of an entry -/

/-- A step of control dependence goes from code that control can reach to such code. -/
theorem ranFrom_step (hg : g.calls.WellFormed) (hc : c ∈ g.calls.nodes) {s t : Statement} (hs : s ∈ g.ranFrom c)
    (h : ControlDependence g .full s t) : t ∈ g.ranFrom c := by
  obtain ⟨d, p, hd, hp, rfl⟩ := hs
  have hjumps := hg.jumps d (node_of_enters hg hc hd)
  cases h with
  | param hk => exact ⟨d, _, hd, .param hk, rfl⟩
  | @entry _ j _ hj hq =>
    have hdecides : d.procedure.Decides .entry (.instr j) := hj
    exact ⟨d, _, hd, .code (hdecides.reaches hjumps) hq, rfl⟩
  | @decision _ i j _ hj hq =>
    have hdecides : d.procedure.Decides (.instr i) (.instr j) := hj
    exact ⟨d, _, hd, .code ((hp.live rfl).trans (hdecides.reaches hjumps)) hq, rfl⟩
  | call _ he => exact ⟨_, _, hd.tail ⟨_, he, hg.site _ he, hp.live rfl⟩, .entry, rfl⟩

section Closed
variable {S : Set Statement} (hclosed : ∀ s ∈ S, ∀ t, ControlDependence g .full s t → t ∈ S)
include hclosed

/-- A set that is closed under control dependence has, with an entry, all that the entry decides on. -/
theorem decided_mem_of_closed (hjumps : FlowGraph.badJump? d.body = none) (hentry : .of d .entry ∈ S) {n : FlowNode}
    (hn : ReflTransGen d.procedure.Decides .entry n) :
    ∀ i, n = .instr i → ∀ p, d.Executes i p → .of d p ∈ S := by
  induction hn with
  | refl => intro i hi; cases hi
  | @tail m _ _ hdec ih =>
    rintro i rfl p hp
    cases m with
    | entry => exact hclosed _ hentry _ (.entry hdec hp)
    | exit => exact absurd hdec (Procedure.not_decides_exit hjumps)
    | instr k =>
      -- a return decides on nothing, so the statement of the deciding instruction is its own
      obtain ⟨ins, hins, hret⟩ := hdec.not_return hjumps
      exact hclosed _ (ih k rfl _ (.normal hins hret)) _ (.decision hdec hp)

theorem ranFrom_subset_of_closed (hg : g.calls.WellFormed) (hc : c ∈ g.calls.nodes) (hentry : .of c .entry ∈ S) :
    g.ranFrom c ⊆ S := by
  have hcode : ∀ d, ReflTransGen g.calls.Enters c d → .of d .entry ∈ S →
      ∀ i, d.Live i → ∀ p, d.Executes i p → .of d p ∈ S := by
    intro d hd hmem i hi p hp
    have hjumps := hg.jumps d (node_of_enters hg hc hd)
    exact decided_mem_of_closed hclosed hjumps hmem ((Procedure.decides_iff_reaches hjumps).2 hi) i rfl p hp
  have hentered : ∀ d, ReflTransGen g.calls.Enters c d → .of d .entry ∈ S := by
    intro d hd
    induction hd with
    | refl => exact hentry
    | @tail d e hd hde ih =>
      obtain ⟨i, he, ⟨target, args, result, site, hins⟩, hi⟩ := hde
      exact hclosed _ (hcode d hd ih i hi _ (.normal hins rfl)) _ (.call rfl he)
  rintro s ⟨d, p, hd, hp, rfl⟩
  cases hp with
  | entry => exact hentered d hd
  | param hk => exact hclosed _ (hentered d hd) _ (.param hk)
  | code hi hp => exact hcode d hd (hentered d hd) _ hi _ hp

end Closed

/-- Without data dependence, the closure of an entry is the code that control can reach from it. -/
theorem closure_entry (hg : g.calls.WellFormed) (hc : c ∈ g.calls.nodes) :
    g.closure .none .full [.of c .entry] = g.ranFrom c := by
  have hsucc : ∀ s t, g.calls.Holds s → (g.Successor .none .full s t ↔ ControlDependence g .full s t) := by
    intro s t hs
    rw [successor_iff .none .full hg hs, Depends]
    simp [Level.enabled, Level.rank]
  have hentry : g.calls.Holds (.of c .entry) := .of hc trivial
  apply Set.Subset.antisymm
  · refine Search.reach_subset ?_ fun s hs t hst => ?_
    · intro s hs
      rw [List.mem_singleton.1 hs]
      exact ⟨c, _, .refl, .entry, rfl⟩
    · have hheld : g.calls.Holds s := by
        obtain ⟨d, p, hd, hp, rfl⟩ := hs
        exact .of (node_of_enters hg hc hd) hp.in
      exact ranFrom_step hg hc hs ((hsucc s t hheld).1 hst)
  · refine ranFrom_subset_of_closed (fun s hs t hst => ?_) hg hc (Search.mem_reach_of_mem (by simp))
    have ha := answers_searchRules .none .full none hg
    have hheld : g.calls.Holds s := ha.reach_subset (by simpa using hentry) hs
    exact Search.reach_step hs ((hsucc s t hheld).2 hst)

end DependenceGraph

namespace Model

open DependenceGraph

/-- The slice of an entry by control alone is the code that control can reach, in the contexts that it can enter. Of an
instruction that control cannot reach nothing is in it, and nothing of a context that only such calls reach. -/
theorem slice_entry {m : Model} (hm : m.Loaded) {c : Context} (hc : c ∈ m.calls.nodes) {x : Index}
    (hx : x.Sound m.calls) :
    ∃ slice, (m.dependence.forwardSlice .none .full none [.of c .entry] x).1 = .ok slice ∧ slice.Nodup ∧
      (∀ s, s ∈ slice ↔ ∃ d p, ReflTransGen m.calls.Enters c d ∧ d.Runs p ∧ s = .of d p) ∧
      (∀ s ∈ slice, ∀ i, s.point.instruction? = some i → s.context.Live i) ∧
      ∀ s ∈ slice, s.context = c ∨
        ∃ d i, .of d (.normal i) ∈ slice ∧ .of d i s.context ∈ m.calls.edges ∧ d.Live i := by
  have hg : m.dependence.calls.WellFormed := hm.wellFormed
  have hs : ∀ s ∈ [Statement.of c .entry], m.dependence.calls.Holds s := by
    intro s hs
    rw [List.mem_singleton.1 hs]
    exact .of hc trivial
  obtain ⟨slice, hslice, hnodup, hmem⟩ :=
    closure_of_maySlice hg hs (forwardSlice_maySlice .none .full none hg hx fun _ => hs).1
  rw [closure_entry hg hc] at hmem
  refine ⟨slice, hslice, hnodup, hmem, fun s hs i hi => ?_, fun s hs => ?_⟩
  · obtain ⟨d, p, -, hp, rfl⟩ := (hmem s).1 hs
    exact hp.live hi
  · obtain ⟨d, p, hd, -, rfl⟩ := (hmem s).1 hs
    cases hd with
    | refl => exact .inl rfl
    | @tail b _ hb hbd =>
      obtain ⟨i, he, ⟨target, args, result, site, hins⟩, hi⟩ := hbd
      exact .inr ⟨b, i, (hmem _).2 ⟨b, _, hb, .code hi (.normal hins rfl), rfl⟩, he, hi⟩

end Model

/-! ## An example

A method calls another one in a loop with no way out, unless it returns at once. After the return it has a call that
control never reaches. -/

namespace Sample

def spinDocument : Json := .obj [
  ("procedures", .arr [
    .obj [("signature", .str "Spin.run(I)V"), ("instructions", .arr [
      .obj [("op", .str "branch"), ("operands", .arr [.int 1]), ("target", .int 3)],
      .obj [("op", .str "invoke"), ("target", .str "Spin.step(I)I"), ("args", .arr [.int 1]), ("result", .int 2)],
      .obj [("op", .str "goto"), ("target", .int 1)],
      .obj [("op", .str "return")],
      .obj [("op", .str "invoke"), ("target", .str "Spin.lost()V")]])],
    .obj [("signature", .str "Spin.step(I)I"), ("instructions", .arr [
      .obj [("op", .str "return"), ("value", .int 1)]])],
    .obj [("signature", .str "Spin.lost()V"), ("instructions", .arr [.obj [("op", .str "return")]])]]),
  ("analyses", .obj [
    ("0cfa", .obj [
      ("contexts", .arr [
        .obj [("id", .str "run"), ("procedure", .str "Spin.run(I)V")],
        .obj [("id", .str "step"), ("procedure", .str "Spin.step(I)I")],
        .obj [("id", .str "lost"), ("procedure", .str "Spin.lost()V")]]),
      ("edges", .arr [edge "run" 1 "step", edge "run" 4 "lost"])])])]

def stepMethod : Method := ⟨"Spin", "step", ⟨["I"], "I"⟩⟩

def lostMethod : Method := ⟨"Spin", "lost", ⟨[], "V"⟩⟩

/-- The method with the loop. -/
def run : Procedure where
  method := ⟨"Spin", "run", ⟨["I"], "V"⟩⟩
  params := 1
  body := [.branch [1] 3, .invoke stepMethod [1] (some 2) none, .goto 1, .ret none, .invoke lostMethod [] none none]

/-- The method that the loop calls. -/
def step : Procedure where
  method := stepMethod
  params := 1
  body := [.ret (some 1)]

/-- The method that only the dead call names. -/
def lost : Procedure where
  method := lostMethod
  params := 0
  body := [.ret none]

def spin : Model where
  name := "0cfa"
  calls := {
    nodes := [merged run, merged step, merged lost]
    byMethod := [(run.method, [merged run]), (step.method, [merged step]), (lost.method, [merged lost])]
    edges := [.of (merged run) 1 (merged step), .of (merged run) 4 (merged lost)] }
  pointsTo := {}
  contexts := [("run", merged run), ("step", merged step), ("lost", merged lost)]

theorem spin_loaded : spin.Loaded :=
  Model.loaded_of_ofJson (ofJson_of_gives (by decide +kernel : gives (fun _ => false) spinDocument "0cfa" spin = true))

/-- The slice of the entry of the method with the loop. -/
def spinSlice : List Statement :=
  [.of (merged run) .entry, .of (merged run) (.param 0), .of (merged run) (.normal 0), .of (merged run) .exit,
   .of (merged run) (.normal 1), .of (merged run) (.returned 1), .of (merged run) (.argument 1 0),
   .of (merged step) .entry, .of (merged run) (.normal 2), .of (merged step) (.param 0), .of (merged step) .exit]

end Sample

/-- Control goes round the loop for ever and into the method that it calls, and never to the call after the return nor
into what that calls. -/
theorem Model.slice_entry_spin : Sample.merged Sample.run ∈ Sample.spin.calls.nodes ∧
    (Sample.spin.dependence.forwardSlice .none .full none [.of (Sample.merged Sample.run) .entry] {}).1 =
      .ok Sample.spinSlice ∧
    (Sample.merged Sample.run).Live 2 ∧ ¬(Sample.merged Sample.run).Live 4 ∧
    ReflTransGen Sample.spin.calls.Enters (Sample.merged Sample.run) (Sample.merged Sample.step) ∧
    ¬ReflTransGen Sample.spin.calls.Enters (Sample.merged Sample.run) (Sample.merged Sample.lost) := by
  have hc : Sample.merged Sample.run ∈ Sample.spin.calls.nodes := by simp [Sample.spin]
  have hslice : (Sample.spin.dependence.forwardSlice .none .full none [.of (Sample.merged Sample.run) .entry] {}).1 =
      .ok Sample.spinSlice := by rfl
  obtain ⟨slice, heq, -, hmem, hlive, -⟩ := Model.slice_entry Sample.spin_loaded hc (Index.sound_empty _)
  cases hslice.symm.trans heq
  have hcall : (Sample.merged Sample.run).body[4]? = some (.invoke Sample.lostMethod [] none none) := rfl
  have hdead : Statement.of (Sample.merged Sample.run) (.normal 4) ∉ Sample.spinSlice := by simp [Sample.spinSlice]
  have hlost : Statement.of (Sample.merged Sample.lost) .entry ∉ Sample.spinSlice := by
    simp [Sample.spinSlice, Sample.merged, Sample.run, Sample.step, Sample.lost]
  refine ⟨hc, hslice, hlive _ (by simp [Sample.spinSlice] : .of (Sample.merged Sample.run) (.normal 2) ∈ _) 2 rfl,
    fun h4 => hdead ?_, ?_, fun hent => hlost ((hmem _).2 ⟨_, _, hent, .entry, rfl⟩)⟩
  · exact (hmem _).2 ⟨_, _, .refl, .code h4 (.normal hcall rfl), rfl⟩
  · obtain ⟨d, p, hent, -, heq⟩ := (hmem (.of (Sample.merged Sample.step) .entry)).1 (by simp [Sample.spinSlice])
    injection heq with hd
    exact hd ▸ hent

end ForwardSlicing
