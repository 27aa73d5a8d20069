import CliffordT.Search.Candidate

/-!
# Going through a list until told to stop

Filling a buffer, testing products and offering candidates are all walks: a list is gone through from the front with
one step per element, and a step may say that the walk ends with it.  A walk along `as ++ bs` is the walk along `as`
and, unless that one stopped, the walk along `bs` from where it ended (`walk_append_of_stop`, `walk_append_of_end`).

Offering a list of candidates to a sink is the walk that stops as soon as the sink is complete (`Sink.offerAll`).
-/

namespace CliffordT

section

variable {σ α : Type} (step : σ → α → σ × Bool)

/-- Go through a list with a step that says whether to stop after it. The second component says whether one did. -/
def walk : σ → List α → σ × Bool
  | s, [] => (s, false)
  | s, a :: as => if (step s a).2 then ((step s a).1, true) else walk (step s a).1 as

/-- How many elements a walk takes, the one at which it stops included. -/
def walked : σ → List α → Nat
  | _, [] => 0
  | s, a :: as => if (step s a).2 then 1 else walked (step s a).1 as + 1

@[simp] theorem walk_nil (s : σ) : walk step s [] = (s, false) := rfl

variable {step} {s : σ} {a : α} {as bs : List α}

theorem walk_cons_of_stop (h : (step s a).2 = true) : walk step s (a :: as) = ((step s a).1, true) := by
  simp [walk, h]

theorem walk_cons_of_go (h : (step s a).2 = false) : walk step s (a :: as) = walk step (step s a).1 as := by
  simp [walk, h]

theorem walk_append_of_stop (h : (walk step s as).2 = true) : walk step s (as ++ bs) = walk step s as := by
  induction as generalizing s with
  | nil => simp at h
  | cons a as ih =>
    cases hstep : (step s a).2 with
    | true => rw [List.cons_append, walk_cons_of_stop hstep, walk_cons_of_stop hstep]
    | false =>
      rw [walk_cons_of_go hstep] at h
      rw [List.cons_append, walk_cons_of_go hstep, walk_cons_of_go hstep, ih h]

theorem walk_append_of_end (h : (walk step s as).2 = false) :
    walk step s (as ++ bs) = walk step (walk step s as).1 bs := by
  induction as generalizing s with
  | nil => rfl
  | cons a as ih =>
    cases hstep : (step s a).2 with
    | true =>
      rw [walk_cons_of_stop hstep] at h
      cases h
    | false =>
      rw [walk_cons_of_go hstep] at h
      rw [List.cons_append, walk_cons_of_go hstep, walk_cons_of_go hstep, ih h]

variable (step s as) in
theorem walked_le_length : walked step s as ≤ as.length := by
  induction as generalizing s with
  | nil => exact Nat.le_refl 0
  | cons a as ih =>
    have := ih (step s a).1
    rw [walked, List.length_cons]
    split <;> omega

/-- A walk that does not stop takes the whole list. -/
theorem walked_of_end (h : (walk step s as).2 = false) : walked step s as = as.length := by
  induction as generalizing s with
  | nil => rfl
  | cons a as ih =>
    cases hstep : (step s a).2 with
    | true =>
      rw [walk_cons_of_stop hstep] at h
      cases h
    | false =>
      rw [walk_cons_of_go hstep] at h
      simp [walked, hstep, ih h]

/-- A walk that stops at `a` takes what is before it and `a`. -/
theorem walked_append_cons (hbefore : (walk step s as).2 = false) (hat : (walk step s (as ++ [a])).2 = true) :
    walked step s (as ++ a :: bs) = as.length + 1 := by
  induction as generalizing s with
  | nil =>
    cases hstep : (step s a).2 with
    | true => simp [walked, hstep]
    | false => simp [walk, hstep] at hat
  | cons c as ih =>
    cases hstep : (step s c).2 with
    | true =>
      rw [walk_cons_of_stop hstep] at hbefore
      cases hbefore
    | false =>
      rw [walk_cons_of_go hstep] at hbefore
      rw [List.cons_append, walk_cons_of_go hstep] at hat
      simp [walked, hstep, ih hbefore hat]

/-- What comes behind the element at which a walk stops is not taken. -/
theorem walked_append_of_stop (h : (walk step s as).2 = true) : walked step s (as ++ bs) = walked step s as := by
  induction as generalizing s with
  | nil => simp at h
  | cons a as ih =>
    cases hstep : (step s a).2 with
    | true => simp [walked, hstep]
    | false =>
      rw [walk_cons_of_go hstep] at h
      simp [walked, hstep, ih h]

/-- What every step keeps, a walk keeps, wherever it stops. -/
theorem walk_keeps {P : σ → Prop} (hstep : ∀ s, ∀ a ∈ as, P s → P (step s a).1) (h : P s) : P (walk step s as).1 := by
  induction as generalizing s with
  | nil => exact h
  | cons a as ih =>
    have hfirst := hstep s a (by simp) h
    cases hstop : (step s a).2 with
    | true =>
      rw [walk_cons_of_stop hstop]
      exact hfirst
    | false =>
      rw [walk_cons_of_go hstop]
      exact ih (fun s c hc => hstep s c (by simp [hc])) hfirst

/-- Two walks whose steps keep a relation and stop together end related, and take as many elements. -/
theorem walk_related {τ : Type} {step' : τ → α → τ × Bool} {R : σ → τ → Prop} {t : τ}
    (hstep : ∀ s t, ∀ a ∈ as, R s t → R (step s a).1 (step' t a).1 ∧ (step s a).2 = (step' t a).2) (h : R s t) :
    R (walk step s as).1 (walk step' t as).1 ∧ (walk step s as).2 = (walk step' t as).2 ∧
      walked step s as = walked step' t as := by
  induction as generalizing s t with
  | nil => exact ⟨h, rfl, rfl⟩
  | cons a as ih =>
    obtain ⟨hfirst, hflag⟩ := hstep s t a (by simp) h
    cases hstop : (step s a).2 with
    | true =>
      have hstop' := hflag.symm.trans hstop
      rw [walk_cons_of_stop hstop, walk_cons_of_stop hstop']
      exact ⟨hfirst, rfl, by simp [walked, hstop, hstop']⟩
    | false =>
      have hgo := hflag.symm.trans hstop
      obtain ⟨hrest, hend, htaken⟩ := ih (fun s t c hc => hstep s t c (by simp [hc])) hfirst
      rw [walk_cons_of_go hstop, walk_cons_of_go hgo]
      exact ⟨hrest, hend, by simp [walked, hstop, hgo, htaken]⟩

end

namespace Sink

variable {C σ : Type} (k : Sink C σ)

/-- Offer values one by one, up to the first after which the sink is complete. The second component says whether
there was one. -/
def offerAll (s : σ) (cs : List C) : σ × Bool :=
  walk (fun s c => (k.offer s c, k.complete (k.offer s c))) s cs

@[simp] theorem offerAll_nil (s : σ) : k.offerAll s [] = (s, false) := rfl

/-- The same sink, which also writes down what it is offered. -/
def recording : Sink C (σ × List C) where
  offer s c := (k.offer s.1 c, s.2 ++ [c])
  complete s := k.complete s.1

variable {k} {s : σ} {c : C} {cs ds : List C}

theorem offerAll_cons_of_complete (h : k.complete (k.offer s c) = true) :
    k.offerAll s (c :: cs) = (k.offer s c, true) :=
  walk_cons_of_stop h

theorem offerAll_cons_of_not_complete (h : k.complete (k.offer s c) = false) :
    k.offerAll s (c :: cs) = k.offerAll (k.offer s c) cs :=
  walk_cons_of_go h

theorem offerAll_append_of_complete (h : (k.offerAll s cs).2 = true) : k.offerAll s (cs ++ ds) = k.offerAll s cs :=
  walk_append_of_stop h

theorem offerAll_append_of_not_complete (h : (k.offerAll s cs).2 = false) :
    k.offerAll s (cs ++ ds) = k.offerAll (k.offerAll s cs).1 ds :=
  walk_append_of_end h

/-- After at least one offer, the flag is what the sink itself says. -/
theorem complete_offerAll_cons (s : σ) (c : C) (cs : List C) :
    k.complete (k.offerAll s (c :: cs)).1 = (k.offerAll s (c :: cs)).2 := by
  induction cs generalizing s c with
  | nil =>
    cases h : k.complete (k.offer s c) with
    | true => rw [offerAll_cons_of_complete h, h]
    | false => rw [offerAll_cons_of_not_complete h, offerAll_nil, h]
  | cons d cs ih =>
    cases h : k.complete (k.offer s c) with
    | true => rw [offerAll_cons_of_complete h, h]
    | false => rw [offerAll_cons_of_not_complete h, ih]

/-- Writing down what is offered makes no difference to the sink. -/
theorem fst_offerAll_recording (s : σ) (log cs : List C) :
    (k.recording.offerAll (s, log) cs).1.1 = (k.offerAll s cs).1 := by
  refine (walk_related (R := fun (p : σ × List C) q => p.1 = q) ?_ rfl).1
  rintro p q c - rfl
  exact ⟨rfl, rfl⟩

/-- What has been written down stays. -/
theorem prefix_offerAll_recording (t : σ × List C) (cs : List C) : t.2 <+: (k.recording.offerAll t cs).1.2 := by
  refine walk_keeps (P := fun p : σ × List C => t.2 <+: p.2) (fun p c _ hp => ?_) (List.prefix_refl _)
  exact hp.trans (List.prefix_append p.2 [c])

/-- With more values to offer, the same ones are offered first. -/
theorem offerAll_recording_prefix (t : σ × List C) (cs ds : List C) :
    (k.recording.offerAll t cs).1.2 <+: (k.recording.offerAll t (cs ++ ds)).1.2 := by
  cases h : (k.recording.offerAll t cs).2 with
  | true =>
    have hsame : k.recording.offerAll t (cs ++ ds) = k.recording.offerAll t cs := offerAll_append_of_complete h
    exact hsame ▸ List.prefix_refl _
  | false =>
    rw [offerAll_append_of_not_complete h]
    exact prefix_offerAll_recording _ ds

/-- A sink that is never complete takes everything. -/
theorem offerAll_of_never_complete (h : ∀ s, k.complete s = false) (s : σ) (cs : List C) :
    k.offerAll s cs = (cs.foldl k.offer s, false) := by
  induction cs generalizing s with
  | nil => rfl
  | cons c cs ih => rw [offerAll_cons_of_not_complete (h _), ih, List.foldl_cons]

end Sink

end CliffordT
