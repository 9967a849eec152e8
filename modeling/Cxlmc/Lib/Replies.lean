import Mathlib.Data.List.Basic

/-!
# Machines that reply to calls

A machine replies to each call with a value and a new state, or stops. `replies_iff` compares two of them on
a sequence of calls: where they agree on the good calls, and never on another one, they agree on the whole
sequence if and only if all the calls that are made are good.
-/

section

variable {σ τ C E V : Type}

/-- What is replied to the calls, up to the first one where the machine stops, and the state behind them. -/
def replies (step : σ → C → Except E (V × σ)) : σ → List C → List (Except E V) × σ
  | s, [] => ([], s)
  | s, c :: cs =>
      match step s c with
      | .error e => ([.error e], s)
      | .ok (v, s') => (.ok v :: (replies step s' cs).1, (replies step s' cs).2)

/-- The same reply, and states that are related. -/
inductive SameReply (R : σ → τ → Prop) : Except E (V × σ) → Except E (V × τ) → Prop where
  | error (e : E) : SameReply R (.error e) (.error e)
  | ok (v : V) {s : σ} {m : τ} (h : R s m) : SameReply R (.ok (v, s)) (.ok (v, m))

variable {stepS : σ → C → Except E (V × σ)} {stepM : τ → C → Except E (V × τ)} {R : σ → τ → Prop}
  {Good : C → Prop} {s : σ} {m : τ}

theorem replies_error {c : C} {e : E} (h : stepS s c = .error e) (cs : List C) :
    replies stepS s (c :: cs) = ([.error e], s) := by
  rw [replies, h]

theorem replies_ok {c : C} {v : V} {s' : σ} (h : stepS s c = .ok (v, s')) (cs : List C) :
    replies stepS s (c :: cs) = (.ok v :: (replies stepS s' cs).1, (replies stepS s' cs).2) := by
  rw [replies, h]

theorem length_replies_pos (step : σ → C → Except E (V × σ)) (s : σ) (c : C) (cs : List C) :
    0 < (replies step s (c :: cs)).1.length := by
  rw [replies]
  split <;> exact Nat.succ_pos _

/-- The first reply. -/
theorem head_replies (c : C) (cs : List C) :
    (replies stepS s (c :: cs)).1.head? = some ((stepS s c).map Prod.fst) := by
  rw [replies]
  split
  · next heq => rw [heq]; rfl
  · next heq => rw [heq]; rfl

/-- Two machines agree on the good calls. -/
theorem replies_same (hgood : ∀ s m c, Good c → R s m → SameReply R (stepS s c) (stepM m c)) (h : R s m)
    (cs : List C) (hcs : ∀ c ∈ cs.take (replies stepM m cs).1.length, Good c) :
    (replies stepS s cs).1 = (replies stepM m cs).1 ∧ R (replies stepS s cs).2 (replies stepM m cs).2 := by
  induction cs generalizing s m with
  | nil => exact ⟨rfl, h⟩
  | cons c cs ih =>
      have hc : Good c := by
        obtain ⟨n, hn⟩ := Nat.exists_eq_add_of_le' (length_replies_pos stepM m c cs)
        rw [hn] at hcs
        exact hcs c List.mem_cons_self
      have hstep := hgood s m c hc h
      generalize hS : stepS s c = replyS at hstep
      generalize hM : stepM m c = replyM at hstep
      cases hstep with
      | error e =>
          rw [replies_error hS, replies_error hM]
          exact ⟨rfl, h⟩
      | ok v h' =>
          rw [replies_ok hM] at hcs
          rw [replies_ok hS, replies_ok hM]
          obtain ⟨hsame, hR⟩ := ih h' fun c hmem => hcs c (List.mem_cons_of_mem _ hmem)
          exact ⟨congrArg _ hsame, hR⟩

/-- Where they do not agree on another call, they agree on a sequence only if its calls are good. -/
theorem replies_iff (hgood : ∀ s m c, Good c → R s m → SameReply R (stepS s c) (stepM m c))
    (hbad : ∀ s m c, ¬ Good c → R s m → (stepS s c).map Prod.fst ≠ (stepM m c).map Prod.fst) (h : R s m)
    (cs : List C) : (replies stepS s cs).1 = (replies stepM m cs).1 ↔
      ∀ c ∈ cs.take (replies stepM m cs).1.length, Good c := by
  refine ⟨fun heq => ?_, fun hcs => (replies_same hgood h cs hcs).1⟩
  induction cs generalizing s m with
  | nil => simp
  | cons c cs ih =>
      have hc : Good c := by
        by_contra hne
        refine hbad s m c hne h (Option.some_inj.mp ?_)
        rw [← head_replies c cs, ← head_replies c cs, heq]
      have hstep := hgood s m c hc h
      generalize hS : stepS s c = replyS at hstep
      generalize hM : stepM m c = replyM at hstep
      cases hstep with
      | error e =>
          rw [replies_error hM]
          intro c' hmem
          rw [List.mem_singleton.mp hmem]
          exact hc
      | ok v h' =>
          rw [replies_ok hS, replies_ok hM] at heq
          rw [replies_ok hM]
          intro c' hmem
          rcases List.mem_cons.mp hmem with rfl | hmem
          · exact hc
          · exact ih h' (List.cons.inj heq).2 c' hmem

end
