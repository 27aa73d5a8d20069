import CliffordT.Proofs.Courses

/-!
# Searching with every index checked

The functions of a search are total: a cell that a buffer does not have reads as zero, and a remainder by zero is the
number itself.  Here they are written once more with every access checked.  An index has to lie within what it is an
index of (`Checked.index`, `Buffer.get?`, `Buffer.set?`) and a divisor must not be zero (`Checked.divisor`); otherwise
the whole computation has no value.

On a buffer that is filled at most up to its capacity no check fails, wherever the passes stop: the checked passes have
a value, which is that of the passes themselves (`Checked.exhaustive_eq`, `Checked.meetInTheMiddle_eq`).  What the sink
does with a candidate is checked too, and is taken to succeed on all sinks that can occur (`Checked.Takes`).
-/

namespace CliffordT.Checked

/-- An index into something of the given length. -/
def index (length : Nat) (i : Int) : Option Nat := if 0 ≤ i ∧ i < length then some i.toNat else none

/-- A number by which can be divided. -/
def divisor (n : Nat) : Option Nat := if n = 0 then none else some n

theorem index_of_lt {length i : Nat} (h : i < length) : index length i = some i := by
  rw [index, if_pos (by omega), Int.toNat_natCast]

theorem divisor_of_pos {n : Nat} (h : 0 < n) : divisor n = some n := if_neg (by omega)

variable {M A E σ ε : Type} [Storable M]

/-! ### Filling a buffer -/

theorem get?_of_lt {b : Buffer M} {i : Nat} (h : i < b.capacity) : b.get? i = some (b.entry i) := by
  rw [Buffer.get?, if_pos (by omega), Int.toNat_natCast]

variable [GateAlgebra M]

/-- The product that makes an entry. -/
def product (b : Buffer M) (i : Nat) : Option M :=
  match Index.predecessor? i with
  | some p => (b.get? p).map ((Index.trailing i).matrix * ·)
  | none => some ((Index.trailing i).matrix * 1)

/-- Compute and store the next entry. -/
def step (b : Buffer M) : Option (Buffer M) := do
  let m ← product b b.filled
  let next ← b.set? b.filled m
  return { next with filled := next.filled + 1 }

/-- Compute at most so many entries, each of which is shown to `visit` as it is stored. -/
def fillFrom (visit : σ → Nat → M → Option (σ × Bool)) : Nat → Buffer M → σ → Option (Buffer M × σ × Bool)
  | 0, b, s => some (b, s, false)
  | n + 1, b, s => do
    let next ← step b
    let m ← next.get? b.filled
    let (s, stop) ← visit s b.filled m
    if stop then some (next, s, true) else fillFrom visit n next s

theorem product_eq {b : Buffer M} {i : Nat} (h : i < b.capacity) : product b i = some (b.product i) := by
  unfold product Buffer.product Index.predecessor?
  by_cases hi : i < 2
  · rw [if_pos hi]
  · rw [if_neg hi]
    show (b.get? ((i / 2 - 1 : Nat) : Int)).map _ = _
    rw [get?_of_lt (by omega)]
    rfl

theorem step_eq {b : Buffer M} (h : b.filled < b.capacity) : step b = some b.step := by
  have hset : b.set? b.filled (b.product b.filled) = some (b.put b.filled (b.product b.filled)) := by
    rw [Buffer.set?, if_pos (by omega), Int.toNat_natCast]
  simp only [step, product_eq h, hset, Option.bind_eq_bind, Option.bind_some]
  rfl

section

variable {P : σ → Prop} {visit : σ → Nat → M → σ × Bool} {visit' : σ → Nat → M → Option (σ × Bool)}

/-- A checked filling has a value if its visitor has one wherever it can come. -/
theorem fillFrom_eq (hvisit : ∀ s i m, P s → visit' s i m = some (visit s i m) ∧ P (visit s i m).1) (n : Nat)
    {b : Buffer M} (hb : b.filled + n ≤ b.capacity) {s : σ} (hs : P s) :
    fillFrom visit' n b s = some (b.fillFrom visit n s) ∧ P (b.fillFrom visit n s).2.1 := by
  induction n generalizing b s with
  | zero => exact ⟨rfl, hs⟩
  | succ n ih =>
    obtain ⟨hvalue, hnext⟩ := hvisit s b.filled (b.step.entry b.filled) hs
    have hcapacity : b.step.capacity = b.capacity := rfl
    have hget : b.step.get? b.filled = some (b.step.entry b.filled) := get?_of_lt (by omega)
    have hstep : fillFrom visit' (n + 1) b s =
        if (visit s b.filled (b.step.entry b.filled)).2 then
          some (b.step, (visit s b.filled (b.step.entry b.filled)).1, true)
        else fillFrom visit' n b.step (visit s b.filled (b.step.entry b.filled)).1 := by
      simp only [fillFrom, step_eq (show b.filled < b.capacity by omega), hget, hvalue, Option.bind_eq_bind,
        Option.bind_some]
    rw [hstep, Buffer.fillFrom]
    dsimp only
    split
    · exact ⟨rfl, hnext⟩
    · exact ih (by rw [Buffer.filled_step, hcapacity]; omega) hnext

end

/-- Compute all missing entries. -/
def fillAll (b : Buffer M) : Option (Buffer M) :=
  (fillFrom (fun _ _ _ => some ((), false)) (b.capacity - b.filled) b ()).map (·.1)

theorem fillAll_eq {b : Buffer M} (hb : b.filled ≤ b.capacity) : fillAll b = some b.fillAll := by
  have hvalue : fillFrom (fun _ _ _ => some ((), false)) (b.capacity - b.filled) b () =
      some (b.fillFrom (fun _ _ _ => ((), false)) (b.capacity - b.filled) ()) :=
    (fillFrom_eq (P := fun _ => True) (fun _ _ _ _ => ⟨rfl, trivial⟩) _ (by omega) trivial).1
  rw [fillAll, hvalue]
  rfl

/-! ### The passes -/

open Search (Setup Pass Stage Stats MeetError seed longestCount productCount productSource)

section

variable (x : Setup M A E σ ε) (take : σ → Candidate M A E → Option σ)

/-- Offer a candidate. -/
def offer (c : Candidate M A E) (p : Pass σ ε) : Option (Pass σ ε) := do
  let sink ← take p.sink c
  return { p with
    stats := { p.stats with hits := p.stats.hits + 1, complete := x.sink.complete sink }
    sink := sink }

/-- Test a matrix with the completions in turn, until the sink is complete. -/
def tryCompletions (source : Source) (m : M) : List (Completion M) → Pass σ ε → Option (Pass σ ε)
  | [], p => some p
  | c :: cs, p =>
    let cm := c.matrix * m
    if x.probe.isDiagonal cm then do
      let p ← offer x take ⟨x.probe.phase cm, source.word c, cm, x.probe.error cm⟩ p.countTest
      if p.stats.complete then some p else tryCompletions source m cs p
    else tryCompletions source m cs p.countTest

/-- Poll, report and test, in a step that was counted. -/
def work (n total : Nat) (source : Source) (m : M) (p : Pass σ ε) : Option (Pass σ ε × Bool) := do
  let _ ← divisor x.options.checkEvery
  let p := p.pollDue x n
  if p.interrupt.isSome then some (p, true)
  else do
    let _ ← divisor x.options.progressEvery
    let p ← tryCompletions x take source m completions (p.reportDue x n total)
    return (p, p.stats.complete)

/-- Run the first pass. -/
def exhaustive [Zero A] [Zero E] (b : Buffer M) (sink : σ) (polls : Nat) : Option (Buffer M × Pass σ ε) := do
  let visit (p : Pass σ ε) (i : Nat) (m : M) : Option (Pass σ ε × Bool) :=
    work x take (p.stats.visited + 1) b.capacity (.single i) m
      { p with stats := { p.stats with visited := p.stats.visited + 1 } }
  let p ← offer x take seed (Pass.start .exhaustive sink polls)
  if p.stats.complete then some (b, p.report x 0 b.capacity)
  else do
    let (next, p, _) ← fillFrom visit (b.capacity - b.filled) b p
    return (next, p.report x p.stats.visited b.capacity)

/-- Test product number `n`. -/
def visitProduct (b : Buffer M) (n : Nat) (p : Pass σ ε) : Option (Pass σ ε × Bool) := do
  let first ← b.get? (n / longestCount b : Nat)
  let second ← b.get? (b.longest + n % longestCount b : Nat)
  work x take (n + 1) (productCount b) (productSource b n) (second * first) ((Search.productCourse b).count p n)

/-- Test products from number `n` on, at most `count` of them. -/
def visitProducts (b : Buffer M) : Nat → Nat → Pass σ ε → Option (Pass σ ε)
  | 0, _, p => some p
  | count + 1, n, p => do
    let (p, stop) ← visitProduct x take b n p
    if stop then some p else visitProducts b count (n + 1) p

/-- The buffer with all entries computed, if some were missing. -/
def filled (b : Buffer M) : Option (Buffer M) := if b.full then some b else fillAll b

/-- Run the second pass. -/
def meetInTheMiddle (b : Buffer M) (sink : σ) (polls : Nat) :
    Option (Buffer M × Pass σ ε × Option MeetError) :=
  let p : Pass σ ε := Pass.start .meetInTheMiddle sink polls
  if !b.full && x.options.requireFilled then some (b, p, some .bufferNotFilled)
  else do
    let b ← filled b
    if x.sink.complete sink then some (b, { p with stats := { p.stats with complete := true } }, none)
    else do
      let p ← visitProducts x take b (productCount b) 0 p
      return (b, p.report x p.stats.products (productCount b), none)

end

variable {x : Setup M A E σ ε} {take : σ → Candidate M A E → Option σ} {P : σ → Prop}

/-- Checked offers succeed on all sinks with a property, and keep it. -/
def Takes (x : Setup M A E σ ε) (take : σ → Candidate M A E → Option σ) (P : σ → Prop) : Prop :=
  ∀ s c, P s → take s c = some (x.sink.offer s c) ∧ P (x.sink.offer s c)

/-- By the intervals of a search can be divided. -/
structure Divides (x : Setup M A E σ ε) : Prop where
  check : 0 < x.options.checkEvery
  progress : 0 < x.options.progressEvery

section

variable (h : Takes x take P)

include h

omit [Storable M] [GateAlgebra M] in
theorem offer_eq (c : Candidate M A E) {p : Pass σ ε} (hp : P p.sink) :
    offer x take c p = some (p.offer x c) ∧ P (p.offer x c).sink := by
  obtain ⟨htake, hkept⟩ := h p.sink c hp
  rw [offer, htake]
  exact ⟨rfl, hkept⟩

omit [Storable M] in
theorem tryCompletions_eq (source : Source) (m : M) (cs : List (Completion M)) {p : Pass σ ε} (hp : P p.sink) :
    tryCompletions x take source m cs p = some (p.tryCompletions x source m cs) ∧
      P (p.tryCompletions x source m cs).sink := by
  induction cs generalizing p with
  | nil => exact ⟨rfl, hp⟩
  | cons c cs ih =>
    rw [tryCompletions, Pass.tryCompletions]
    split
    · obtain ⟨hvalue, hkept⟩ := offer_eq h
        ⟨x.probe.phase (c.matrix * m), source.word c, c.matrix * m, x.probe.error (c.matrix * m)⟩
        (p := p.countTest) hp
      rw [hvalue, Option.bind_eq_bind, Option.bind_some]
      dsimp only
      split
      · exact ⟨rfl, hkept⟩
      · exact ih hkept
    · exact ih (p := p.countTest) hp

omit [Storable M] in
theorem work_eq (hx : Divides x) (n total : Nat) (source : Source) (m : M) {p : Pass σ ε} (hp : P p.sink) :
    work x take n total source m p = some (p.work x n total source m completions) ∧
      P (p.work x n total source m completions).1.sink := by
  have hready : P ((p.pollDue x n).reportDue x n total).sink := by
    rw [Pass.sink_reportDue, Pass.sink_pollDue]
    exact hp
  obtain ⟨hvalue, hkept⟩ := tryCompletions_eq h source m completions hready
  simp only [work, divisor_of_pos hx.check, divisor_of_pos hx.progress, hvalue, Option.bind_eq_bind, Option.bind_some]
  unfold Pass.work
  dsimp only
  split
  · exact ⟨rfl, by rw [Pass.sink_pollDue]; exact hp⟩
  · exact ⟨rfl, hkept⟩

/-- The first pass indexes nothing out of range. -/
theorem exhaustive_eq [Zero A] [Zero E] (hx : Divides x) {b : Buffer M} (hb : b.filled ≤ b.capacity) {s : σ}
    (hs : P s) (polls : Nat) :
    exhaustive x take b s polls = some (Search.exhaustive x b s polls) ∧
      P (Search.exhaustive x b s polls).2.sink := by
  obtain ⟨hseed, hkept⟩ := offer_eq h seed (p := Pass.start .exhaustive s polls) hs
  have hvisit : ∀ (p : Pass σ ε) (i : Nat) (m : M), P p.sink →
      work x take (p.stats.visited + 1) b.capacity (.single i) m
          { p with stats := { p.stats with visited := p.stats.visited + 1 } } =
        some (Search.visitEntry x completions b.capacity p i m) ∧
      P (Search.visitEntry x completions b.capacity p i m).1.sink := by
    intro p i m hp
    exact work_eq h hx _ _ _ _ (p := { p with stats := { p.stats with visited := p.stats.visited + 1 } }) hp
  obtain ⟨hfill, hend⟩ := fillFrom_eq hvisit (b.capacity - b.filled) (b := b) (by omega) hkept
  rw [exhaustive, hseed]
  unfold Search.exhaustive
  dsimp only [Option.bind_eq_bind, Option.bind_some]
  split
  · exact ⟨rfl, by rw [Pass.sink_report]; exact hkept⟩
  · rw [hfill, Option.bind_some]
    exact ⟨rfl, by rw [Pass.sink_report]; exact hend⟩

theorem visitProduct_eq (hx : Divides x) {b : Buffer M} {n : Nat} (hn : n < productCount b) {p : Pass σ ε}
    (hp : P p.sink) :
    visitProduct x take b n p = some (Search.visitProduct x completions b n p) ∧
      P (Search.visitProduct x completions b n p).1.sink := by
  -- both lists of a product have a number below the capacity
  have hwidth : 0 < longestCount b := Nat.pos_of_mul_pos_left (Nat.lt_of_le_of_lt (Nat.zero_le n) hn)
  have hsecond : b.longest + n % longestCount b < b.capacity := by
    have := Nat.mod_lt n hwidth
    unfold longestCount at this hwidth ⊢
    omega
  have hfirst : n / longestCount b < b.longest := Nat.div_lt_of_lt_mul (by rwa [Nat.mul_comm])
  rw [visitProduct, get?_of_lt (by omega), get?_of_lt hsecond]
  exact work_eq h hx (n + 1) (productCount b) (productSource b n) _ (p := (Search.productCourse b).count p n) hp

theorem visitProducts_eq (hx : Divides x) {b : Buffer M} {count n : Nat} (hn : n + count ≤ productCount b)
    {p : Pass σ ε} (hp : P p.sink) :
    visitProducts x take b count n p = some (Search.visitProducts x completions b count n p) ∧
      P (Search.visitProducts x completions b count n p).sink := by
  induction count generalizing n p with
  | zero => exact ⟨rfl, hp⟩
  | succ count ih =>
    obtain ⟨hvalue, hkept⟩ := visitProduct_eq h hx (show n < productCount b by omega) hp
    rw [visitProducts, Search.visitProducts, hvalue, Option.bind_eq_bind, Option.bind_some]
    dsimp only
    split
    · exact ⟨rfl, hkept⟩
    · exact ih (by omega) hkept

/-- The second pass indexes nothing out of range. -/
theorem meetInTheMiddle_eq (hx : Divides x) {b : Buffer M} (hb : b.filled ≤ b.capacity) {s : σ} (hs : P s)
    (polls : Nat) :
    meetInTheMiddle x take b s polls = some (Search.meetInTheMiddle x b s polls) ∧
      P (Search.meetInTheMiddle x b s polls).2.1.sink := by
  have hfull : filled b = some (if b.full then b else b.fillAll) := by
    unfold filled
    split
    · rfl
    · exact fillAll_eq hb
  rw [meetInTheMiddle, hfull]
  unfold Search.meetInTheMiddle
  dsimp only [Option.bind_eq_bind, Option.bind_some]
  generalize (if b.full = true then b else b.fillAll) = c
  obtain ⟨hvalue, hkept⟩ := visitProducts_eq h hx (show 0 + productCount c ≤ productCount c by omega)
    (p := Pass.start .meetInTheMiddle s polls) hs
  split
  · exact ⟨rfl, hs⟩
  · split
    · exact ⟨rfl, hs⟩
    · rw [hvalue, Option.bind_some]
      exact ⟨rfl, by rw [Pass.sink_report]; exact hkept⟩

end

end CliffordT.Checked
