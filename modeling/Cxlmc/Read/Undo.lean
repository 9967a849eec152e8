import Cxlmc.Read.CrashAtRead
import Mathlib.Logic.Relation

/-!
# Undoing a store

A round of the loop of `build_read_from` tries a store and may take it back: the checker crashes its
writer, or decides that it has not persisted. `Round` is a round from one point of the loop to the next,
and `ReadAt` says which points a read gets to. At each of them `numslotsleft` is the number of free slots,
and a store that is taken back leaves the slots and the number from before (`undo_exact`).
-/

namespace Cxlmc

open Stateful Fill Relation

/-! ## One store -/

/-- What `get_overlaps_save_old` has to do with `get_overlaps`. -/
structure Undoes (write read : ModelAction) (rf : Slots) (left : Nat) : Prop where
  same : (getOverlapsSaveOld write read rf left).2 = (getOverlaps write read rf left).2
  null : (getOverlapsSaveOld write read rf left).1 = none ↔ (getOverlaps write read rf left).1 = false
  unchanged : (getOverlaps write read rf left).1 = false → (getOverlaps write read rf left).2 = (rf, left)
  old : ∀ old, (getOverlapsSaveOld write read rf left).1 = some old → old = rf

section

variable {write read : ModelAction} {rf : Slots} {left : Nat}

theorem undoes (hleft : left = countFree rf) : Undoes write read rf left := by
  subst hleft
  constructor
  · rw [getOverlaps_fill, getOverlapsSaveOld_fill]
  · rw [getOverlaps_fill, getOverlapsSaveOld_fill]
    by_cases h : fill (offers read) write rf = rf <;> simp [h]
  · rw [getOverlaps_fill]
    intro h
    have heq : fill (offers read) write rf = rf := by simpa using h
    simp only [heq]
  · rw [getOverlapsSaveOld_fill]
    intro old h
    dsimp only at h
    split at h
    · cases h
    · exact (Option.some.inj h).symm

end

/-! ## The loop as rounds -/

/-- The part of a round for running processes. -/
def roundRunning (read : ModelAction) (rpid : ProcessId) (store : ModelAction) (rf : Slots) (left : Nat) :
    M (Slots × Nat) := do
  let s ← state
  if s.isCrashed (s.getProcessId store) then pure (rf, left)
  else readRunning read rpid store rf left

/-- The part of a round for crashed processes. -/
def roundCrashed (cfg : Config) (read store : ModelAction) (older : List ModelAction) (rf : Slots)
    (left : Nat) : M (Option (Slots × Nat)) := do
  let s ← state
  if s.isCrashed (s.getProcessId store) then readCrashed cfg read store older rf left
  else pure (some (rf, left))

/-- The end of a round: `continue`, the result of the read, or the next store. -/
def roundNext (cfg : Config) (read : ModelAction) (rpid : ProcessId) (older : List ModelAction) (rf : Slots)
    (left : Nat) : Option (Slots × Nat) → M Slots
  | none => readLoop cfg read rpid older rf left
  | some (rf, left) => if left = 0 then return rf else readLoop cfg read rpid older rf left

theorem readLoop_cons (cfg : Config) (read : ModelAction) (rpid : ProcessId) (store : ModelAction)
    (older : List ModelAction) (rf : Slots) (left : Nat) :
    readLoop cfg read rpid (store :: older) rf left =
      roundRunning read rpid store rf left >>= fun x =>
        roundCrashed cfg read store older x.1 x.2 >>= roundNext cfg read rpid older x.1 x.2 := by
  funext s
  have hcrashed : ∀ (x : Slots × Nat) (s : Model), _ = _ := fun x s =>
    (bind_state_ite (p := fun s : Model => s.isCrashed (s.getProcessId store) = true)
      (m := fun _ => readCrashed cfg read store older x.1 x.2) (n := fun _ => pure (some x))
      (f := roundNext cfg read rpid older x.1 x.2) (s := s)).symm
  rw [readLoop, bind_state_apply, roundRunning, bind_state_ite]
  split
  · exact bind_congr_apply hcrashed
  · exact bind_congr_apply hcrashed

/-- A point of the loop: the stores that it has not tried, the slots, `numslotsleft` and the state. -/
structure LoopPoint where
  stores : List ModelAction
  rf : Slots
  left : Nat
  state : Model

/-- A round that does not return. -/
inductive Round (cfg : Config) (read : ModelAction) (rpid : ProcessId) : LoopPoint → LoopPoint → Prop where
  | skip {store older rf left s x s₁ s₂} (hrunning : (roundRunning read rpid store rf left).Ends s (.ok x) s₁)
      (hcrashed : (roundCrashed cfg read store older x.1 x.2).Ends s₁ (.ok none) s₂) :
      Round cfg read rpid ⟨store :: older, rf, left, s⟩ ⟨older, x.1, x.2, s₂⟩
  | next {store older rf left s x s₁ y s₂}
      (hrunning : (roundRunning read rpid store rf left).Ends s (.ok x) s₁)
      (hcrashed : (roundCrashed cfg read store older x.1 x.2).Ends s₁ (.ok (some y)) s₂) (hleft : y.2 ≠ 0) :
      Round cfg read rpid ⟨store :: older, rf, left, s⟩ ⟨older, y.1, y.2, s₂⟩

/-- How the loop ends in the round from a point. -/
inductive LastRound (cfg : Config) (read : ModelAction) (rpid : ProcessId) :
    LoopPoint → Except Stop Slots → Model → Prop where
  | noStore {rf left s} : LastRound cfg read rpid ⟨[], rf, left, s⟩ (.error .assertFailed) s
  | full {store older rf left s x s₁ rf₂ s₂}
      (hrunning : (roundRunning read rpid store rf left).Ends s (.ok x) s₁)
      (hcrashed : (roundCrashed cfg read store older x.1 x.2).Ends s₁ (.ok (some (rf₂, 0))) s₂) :
      LastRound cfg read rpid ⟨store :: older, rf, left, s⟩ (.ok rf₂) s₂
  | stopRunning {store older rf left s e s₁}
      (hrunning : (roundRunning read rpid store rf left).Ends s (.error e) s₁) :
      LastRound cfg read rpid ⟨store :: older, rf, left, s⟩ (.error e) s₁
  | stopCrashed {store older rf left s x s₁ e s₂}
      (hrunning : (roundRunning read rpid store rf left).Ends s (.ok x) s₁)
      (hcrashed : (roundCrashed cfg read store older x.1 x.2).Ends s₁ (.error e) s₂) :
      LastRound cfg read rpid ⟨store :: older, rf, left, s⟩ (.error e) s₂

section

variable {cfg : Config} {read store : ModelAction} {rpid : ProcessId} {stores older : List ModelAction}
  {s s' s₁ : Model} {rf rf₁ : Slots} {left : Nat}

/-- One round of the loop: it ends, or there is a next point. -/
theorem ends_readLoop_round {p : LoopPoint} {r : Except Stop Slots} :
    (readLoop cfg read rpid p.stores p.rf p.left).Ends p.state r s' ↔
      LastRound cfg read rpid p r s' ∨
        ∃ q, Round cfg read rpid p q ∧ (readLoop cfg read rpid q.stores q.rf q.left).Ends q.state r s' := by
  obtain ⟨stores, rf, left, s⟩ := p
  cases stores with
  | nil =>
      rw [readLoop, ends_stop]
      constructor
      · rintro ⟨rfl, rfl⟩
        exact .inl .noStore
      · rintro (h | ⟨q, h, _⟩)
        · cases h
          exact ⟨rfl, rfl⟩
        · cases h
  | cons store older =>
      rw [readLoop_cons, ends_bind]
      simp only [ends_bind]
      -- the two parts of the round, each of which may be left by a stop
      constructor
      · rintro (⟨x, s₁, h₁, ⟨y, s₂, h₂, h₃⟩ | ⟨e, h₂, rfl⟩⟩ | ⟨e, h₁, rfl⟩)
        · cases y with
          | none => exact .inr ⟨_, .skip h₁ h₂, h₃⟩
          | some y =>
              obtain ⟨rf₂, left₂⟩ := y
              by_cases hleft : left₂ = 0
              · rw [roundNext, if_pos hleft, ends_pure] at h₃
                obtain ⟨rfl, rfl⟩ := h₃
                subst hleft
                exact .inl (.full h₁ h₂)
              · rw [roundNext, if_neg hleft] at h₃
                exact .inr ⟨_, .next h₁ h₂ hleft, h₃⟩
        · exact .inl (.stopCrashed h₁ h₂)
        · exact .inl (.stopRunning h₁)
      · rintro (h | ⟨q, h, hrest⟩)
        · cases h with
          | full h₁ h₂ =>
              refine .inl ⟨_, _, h₁, .inl ⟨_, _, h₂, ?_⟩⟩
              rw [roundNext, if_pos rfl, ends_pure]
              exact ⟨rfl, rfl⟩
          | stopRunning h₁ => exact .inr ⟨_, h₁, rfl⟩
          | stopCrashed h₁ h₂ => exact .inl ⟨_, _, h₁, .inr ⟨_, h₂, rfl⟩⟩
        · cases h with
          | skip h₁ h₂ => exact .inl ⟨_, _, h₁, .inl ⟨_, _, h₂, hrest⟩⟩
          | next h₁ h₂ hleft =>
              refine .inl ⟨_, _, h₁, .inl ⟨_, _, h₂, ?_⟩⟩
              rw [roundNext, if_neg hleft]
              exact hrest

/-- The loop is a run of rounds. -/
theorem ends_readLoop_iff {p : LoopPoint} {r : Except Stop Slots} :
    (readLoop cfg read rpid p.stores p.rf p.left).Ends p.state r s' ↔
      ∃ q, ReflTransGen (Round cfg read rpid) p q ∧ LastRound cfg read rpid q r s' := by
  constructor
  · intro h
    -- every round takes one store
    induction hn : p.stores generalizing p with
    | nil =>
        obtain h | ⟨q, hround, _⟩ := ends_readLoop_round.mp h
        · exact ⟨p, .refl, h⟩
        · cases hround <;> cases hn
    | cons store older ih =>
        obtain h | ⟨q, hround, hrest⟩ := ends_readLoop_round.mp h
        · exact ⟨p, .refl, h⟩
        · have hq : q.stores = older := by cases hround <;> exact (List.cons.inj hn).2
          obtain ⟨q', hrun, hlast⟩ := ih hrest hq
          exact ⟨q', .head hround hrun, hlast⟩
  · rintro ⟨q, hrun, hlast⟩
    induction hrun using ReflTransGen.head_induction_on with
    | refl => exact ends_readLoop_round.mpr (.inl hlast)
    | head hround _ ih => exact ends_readLoop_round.mpr (.inr ⟨_, hround, ih⟩)

/-! ## What a round does to the slots -/

/-- The checker crashes the writer of the store. -/
def CrashesWriter (store : ModelAction) (s s₁ : Model) : Prop :=
  s.isCrashed (s.getProcessId store) = false ∧ s₁.isCrashed (s₁.getProcessId store) = true

instance (store : ModelAction) (s s₁ : Model) : Decidable (CrashesWriter store s s₁) :=
  inferInstanceAs (Decidable (_ ∧ _))

/-- The checker decides that the store has not persisted: `cl.setEnd`. -/
def LosesStore (read store : ModelAction) (s s₁ : Model) : Prop :=
  (s₁.objToCl (s.getProcessId store) read.line).getEnd ≠
    (s.objToCl (s.getProcessId store) read.line).getEnd

instance (read store : ModelAction) (s s₁ : Model) : Decidable (LosesStore read store s s₁) :=
  inferInstanceAs (Decidable (¬ _))

theorem roundRunning_spec (hlen : rf.length = read.size) {r : Except Stop (Slots × Nat)}
    (h : (roundRunning read rpid store rf (countFree rf)).Ends s r s₁) :
    ∃ rf₁, r = .ok (rf₁, countFree rf₁) ∧ rf₁.length = read.size ∧
      (s₁.isCrashed (s₁.getProcessId store) = true → rf₁ = rf) := by
  rw [roundRunning, ends_state_bind] at h
  split at h
  · obtain ⟨rfl, rfl⟩ := ends_pure.mp h
    exact ⟨rf, rfl, hlen, fun _ => rfl⟩
  · next hlive =>
      obtain ⟨rf₁, rfl, h | ⟨_, rfl⟩⟩ := (ends_readRunning hlen).mp h
      · refine ⟨rf₁, rfl, ?_, fun hc => absurd hc ?_⟩
        · rw [h.slots_eq, length_fill, hlen]
        · rw [h.getProcessId_eq, Model.isCrashed, h.crashes_eq]
          exact hlive
      · exact ⟨rf₁, rfl, hlen, fun _ => rfl⟩

theorem Persist.not_losesStore (h : Persist cfg read store older s rf s₁ rf₁) (hne : rf₁ ≠ rf) :
    ¬ LosesStore read store s s₁ := by
  unfold LosesStore
  rw [not_not]
  cases h with
  | persisted _ => rfl
  | kept _ _ _ =>
      have hcl : (s.raiseBegin (s.getProcessId store) read.line store.seqNum).objToCl
          (s.getProcessId store) read.line =
        (s.objToCl (s.getProcessId store) read.line).setBegin store.seqNum := if_pos ⟨rfl, rfl⟩
      rw [hcl]
      rfl
  | lostBefore _ _ | skipped _ | shadowed _ _ _ | lost _ _ _ _ _ => exact absurd rfl hne

theorem Persist.not_losesStore_of_skips (h : Persist cfg read store older s rf s₁ rf₁)
    (hskip : Skips cfg read store older s) : ¬ LosesStore read store s s₁ := by
  rw [(h.eq_of_skips hskip).1]
  exact fun h => h rfl

theorem roundCrashed_spec (hlen : rf.length = read.size) {r : Except Stop (Option (Slots × Nat))}
    (h : (roundCrashed cfg read store older rf (countFree rf)).Ends s r s₁) :
    ∃ y, r = .ok y ∧ (∀ z, y = some z → z.2 = countFree z.1 ∧ z.1.length = read.size) ∧
      (LosesStore read store s s₁ →
        s.isCrashed (s.getProcessId store) = true ∧ y = some (rf, countFree rf)) := by
  rw [roundCrashed, ends_state_bind] at h
  split at h
  · next hcrashed =>
      obtain ⟨rf₁, hp, ⟨_, rfl⟩ | ⟨hskip, rfl⟩⟩ := (ends_readCrashed hlen).mp h
      · refine ⟨_, rfl, ?_, fun hlose => ⟨hcrashed, ?_⟩⟩
        · rintro z hz
          cases hz
          refine ⟨rfl, ?_⟩
          rcases hp.slots with rfl | rfl
          · rw [length_fill, hlen]
          · exact hlen
        · have heq : rf₁ = rf := by
            by_contra hne
            exact hp.not_losesStore hne hlose
          rw [heq]
      · refine ⟨none, rfl, ?_, fun hlose => absurd hlose (hp.not_losesStore_of_skips hskip)⟩
        intro z hz
        cases hz
  · obtain ⟨rfl, rfl⟩ := ends_pure.mp h
    refine ⟨_, rfl, ?_, fun hlose => absurd rfl hlose⟩
    rintro z hz
    cases hz
    exact ⟨rfl, hlen⟩

/-- The vector has a slot for each byte of the read, and `numslotsleft` is the number of free ones. -/
structure LoopPoint.Counted (read : ModelAction) (p : LoopPoint) : Prop where
  length : p.rf.length = read.size
  left : p.left = countFree p.rf

theorem Round.counted {p q : LoopPoint} (h : Round cfg read rpid p q) (hp : p.Counted read) :
    q.Counted read := by
  obtain ⟨hlen, hleft⟩ := hp
  cases h with
  | skip h₁ h₂ =>
      dsimp only at hlen hleft
      subst hleft
      obtain ⟨rf₁, hr, hlen₁, _⟩ := roundRunning_spec hlen h₁
      cases hr
      exact ⟨hlen₁, rfl⟩
  | next h₁ h₂ _ =>
      dsimp only at hlen hleft
      subst hleft
      obtain ⟨rf₁, hr, hlen₁, _⟩ := roundRunning_spec hlen h₁
      cases hr
      obtain ⟨y, hr, hy, _⟩ := roundCrashed_spec hlen₁ h₂
      cases hr
      obtain ⟨hleft, hlen₂⟩ := hy _ rfl
      exact ⟨hlen₂, hleft⟩

/-! ## The points of a read -/

/-- `check_memory_poisoning(read)`, where it is compiled in. -/
def poisonCheck (cfg : Config) (read : ModelAction) : M Unit :=
  if cfg.memPoison then checkMemoryPoisoning read else pure ()

/-- Where a read enters the loop: its own store buffer has not resolved it. -/
structure Enters (cfg : Config) (read : ModelAction) (s : Model) (p : LoopPoint) : Prop where
  bypassed : (s.threadMemory read.tid).localBypassing read (Slots.free read.size) read.size =
    (false, p.rf, p.left)
  notEmpty : s.getStorelist read.location ≠ []
  poison : (poisonCheck cfg read).Ends s (.ok ()) p.state
  stores : p.stores = (p.state.getStorelist read.location).reverse

/-- A read that is started in `s` gets to the point `p` of the loop. -/
inductive ReadAt (cfg : Config) (read : ModelAction) (s : Model) : ProcessId → LoopPoint → Prop where
  | intro {q p} (henters : Enters cfg read s q)
      (hrounds : ReflTransGen (Round cfg read (q.state.getProcessId read)) q p) :
      ReadAt cfg read s (q.state.getProcessId read) p

theorem bypassLoop_counted (ws : List ModelAction) (hlen : rf.length = read.size) :
    (bypassLoop read ws rf (countFree rf)).2.2 = countFree (bypassLoop read ws rf (countFree rf)).2.1 ∧
      (bypassLoop read ws rf (countFree rf)).2.1.length = read.size := by
  induction ws generalizing rf with
  | nil => exact ⟨rfl, hlen⟩
  | cons w ws ih =>
      rw [bypassLoop]
      split
      · rw [getOverlaps_eq hlen]
        dsimp only
        have hlen' := (length_fill (wants read) w rf).trans hlen
        split
        · exact ⟨rfl, hlen'⟩
        · exact ih hlen'
      · exact ih hlen

theorem Enters.counted {p : LoopPoint} (h : Enters cfg read s p) : p.Counted read := by
  have hspec := @bypassLoop_counted read (Slots.free read.size)
    (s.threadMemory read.tid).storeBuffer.reverse (length_free _)
  have hbypass := h.bypassed
  rw [ThreadMemory.localBypassing] at hbypass
  rw [countFree_free, hbypass] at hspec
  exact ⟨hspec.2, hspec.1⟩

theorem ReadAt.counted {p : LoopPoint} (h : ReadAt cfg read s rpid p) : p.Counted read := by
  obtain ⟨henters, hrounds⟩ := h
  induction hrounds with
  | refl => exact henters.counted
  | tail _ hround ih => exact hround.counted ih

/-- How a read ends that does not enter the loop. -/
inductive EndsEarly (cfg : Config) (read : ModelAction) (s : Model) : Except Stop Slots → Model → Prop where
  | bypassed {rf : Slots} {left : Nat} (hbypassed :
      (s.threadMemory read.tid).localBypassing read (Slots.free read.size) read.size = (true, rf, left)) :
      EndsEarly cfg read s (.ok rf) s
  | noStore {rf : Slots} {left : Nat} (hbypassed :
      (s.threadMemory read.tid).localBypassing read (Slots.free read.size) read.size = (false, rf, left))
      (hempty : s.getStorelist read.location = []) : EndsEarly cfg read s (.error .assertFailed) s
  | poisoned {rf : Slots} {left : Nat} {e : Stop} {s' : Model} (hbypassed :
      (s.threadMemory read.tid).localBypassing read (Slots.free read.size) read.size = (false, rf, left))
      (hne : s.getStorelist read.location ≠ [])
      (hpoison : (poisonCheck cfg read).Ends s (.error e) s') :
      EndsEarly cfg read s (.error e) s'

/-- What a read does that its store buffer has not resolved. -/
theorem ends_buildReadFromSlots_enter {r : Except Stop Slots}
    (hbypassed : (s.threadMemory read.tid).localBypassing read (Slots.free read.size) read.size =
      (false, rf, left)) :
    (buildReadFromSlots cfg read).Ends s r s' ↔
      s.getStorelist read.location = [] ∧ r = .error .assertFailed ∧ s' = s ∨
      s.getStorelist read.location ≠ [] ∧ (poisonCheck cfg read >>= fun _ => state >>= fun s =>
        readLoop cfg read (s.getProcessId read) (s.getStorelist read.location).reverse rf left).Ends s r s' := by
  rw [buildReadFromSlots, ends_state_bind, hbypassed]
  dsimp only
  rw [if_neg Bool.false_ne_true, ends_bind]
  simp only [ends_require]
  by_cases hempty : s.getStorelist read.location = []
  · simp [hempty, and_comm]
  · unfold poisonCheck
    cases hpoison : cfg.memPoison <;> simp [hempty, ends_pure_bind]

/-- A read ends early or in a round from one of its points. -/
theorem ends_buildReadFromSlots_iff {r : Except Stop Slots} :
    (buildReadFromSlots cfg read).Ends s r s' ↔
      EndsEarly cfg read s r s' ∨ ∃ rpid p, ReadAt cfg read s rpid p ∧ LastRound cfg read rpid p r s' := by
  rcases hbypassed : (s.threadMemory read.tid).localBypassing read (Slots.free read.size) read.size
    with ⟨done, rf, left⟩
  cases done with
  | true =>
      rw [buildReadFromSlots, ends_state_bind, hbypassed]
      dsimp only
      rw [if_pos rfl, ends_pure]
      constructor
      · rintro ⟨rfl, rfl⟩
        exact .inl (.bypassed hbypassed)
      · rintro (h | ⟨_, _, ⟨henters, _⟩, _⟩)
        · cases h with
          | bypassed h =>
              cases hbypassed.symm.trans h
              exact ⟨rfl, rfl⟩
          | noStore h _ | poisoned h _ _ => cases hbypassed.symm.trans h
        · cases hbypassed.symm.trans henters.bypassed
  | false =>
      rw [ends_buildReadFromSlots_enter hbypassed]
      constructor
      · rintro (⟨hempty, rfl, rfl⟩ | ⟨hne, h⟩)
        · exact .inl (.noStore hbypassed hempty)
        · obtain ⟨_, s₁, hpoison, hloop⟩ | ⟨e, hpoison, rfl⟩ := ends_bind.mp h
          · have henters : Enters cfg read s ⟨(s₁.getStorelist read.location).reverse, rf, left, s₁⟩ :=
              ⟨hbypassed, hne, hpoison, rfl⟩
            obtain ⟨p, hrounds, hlast⟩ :=
              (ends_readLoop_iff (p := ⟨_, rf, left, s₁⟩)).mp (ends_state_bind.mp hloop)
            exact .inr ⟨_, p, .intro henters hrounds, hlast⟩
          · exact .inl (.poisoned hbypassed hne hpoison)
      · rintro (h | ⟨_, p, ⟨henters, hrounds⟩, hlast⟩)
        · cases h with
          | bypassed h => cases hbypassed.symm.trans h
          | noStore _ hempty => exact .inl ⟨hempty, rfl, rfl⟩
          | poisoned _ hne hpoison => exact .inr ⟨hne, ends_bind.mpr (.inr ⟨_, hpoison, rfl⟩)⟩
        · next q =>
          obtain ⟨stores, rf₁, left₁, s₁⟩ := q
          obtain ⟨h, hne, hpoison, hstores⟩ := henters
          cases hbypassed.symm.trans h
          dsimp only at hstores
          subst hstores
          refine .inr ⟨hne, ends_bind.mpr (.inl ⟨(), s₁, hpoison, ends_state_bind.mpr ?_⟩)⟩
          exact (ends_readLoop_iff (p := ⟨_, rf₁, left₁, s₁⟩)).mpr ⟨p, hrounds, hlast⟩

/-! ## The count and the rollbacks -/

/-- At a point of the loop `numslotsleft` is the number of free slots, also between the two parts of the
round that follows; where that round crashes the writer of its store, or decides that the store has not
persisted, the slots and `numslotsleft` are those of the point again. -/
structure LoopPoint.Exact (cfg : Config) (read : ModelAction) (rpid : ProcessId) (p : LoopPoint) : Prop where
  left : p.left = countFree p.rf
  round : ∀ store older, p.stores = store :: older → ∀ r s₁,
    (roundRunning read rpid store p.rf p.left).Ends p.state r s₁ → ∃ x, r = .ok x ∧ x.2 = countFree x.1 ∧
      (CrashesWriter store p.state s₁ → x = (p.rf, p.left)) ∧
      ∀ r' s₂, (roundCrashed cfg read store older x.1 x.2).Ends s₁ r' s₂ → ∃ y, r' = .ok y ∧
        (∀ z, y = some z → z.2 = countFree z.1) ∧
        (LosesStore read store s₁ s₂ → y = some (p.rf, p.left))

theorem LoopPoint.Counted.exact {p : LoopPoint} (h : p.Counted read) : p.Exact cfg read rpid := by
  obtain ⟨stores, rf, left, s⟩ := p
  obtain ⟨hlen, hleft⟩ := h
  dsimp only at hlen hleft
  subst hleft
  refine ⟨rfl, fun store older _ r s₁ h₁ => ?_⟩
  obtain ⟨rf₁, rfl, hlen₁, hback⟩ := roundRunning_spec hlen h₁
  refine ⟨_, rfl, rfl, fun hcrash => by rw [hback hcrash.2], fun r' s₂ h₂ => ?_⟩
  obtain ⟨y, rfl, hy, hlose⟩ := roundCrashed_spec hlen₁ h₂
  refine ⟨y, rfl, fun z hz => (hy z hz).1, fun h => ?_⟩
  obtain ⟨hcrashed, rfl⟩ := hlose h
  rw [hback hcrashed]

/-- Undoing a store is exact: what `get_overlaps_save_old` gives back, and what the rounds go on with through
which `build_read_from` comes to its end. -/
theorem undo_exact :
    (∀ write read rf left, left = countFree rf → Undoes write read rf left) ∧
    ∀ cfg read s,
      (∀ r s', (buildReadFromSlots cfg read).Ends s r s' ↔
        EndsEarly cfg read s r s' ∨ ∃ rpid p, ReadAt cfg read s rpid p ∧ LastRound cfg read rpid p r s') ∧
      ∀ rpid p, ReadAt cfg read s rpid p → p.Exact cfg read rpid :=
  ⟨fun _ _ _ _ => undoes,
    fun _ _ _ => ⟨fun _ _ => ends_buildReadFromSlots_iff, fun _ _ h => h.counted.exact⟩⟩

end

def lowerStore : ModelAction :=
  { tid := 0, type := .nonatomicStore, location := 4096, value := 7, tick := 1, size := 4 }

def upperStore : ModelAction :=
  { tid := 1, type := .nonatomicStore, location := 4100, value := 9, tick := 2, size := 4 }

/-- The read of process 1 has got the upper half from its own process, and the store of process 0 is next. -/
def atLowerStore : LoopPoint where
  stores := [lowerStore, { tid := 0, type := .atomicInit, location := 4096, order := .relaxed, size := 8 }]
  rf := List.replicate 4 none ++ List.replicate 4 (some upperStore)
  left := 4
  state := twoWriters

theorem readAt_atLowerStore : ReadAt .asBuilt readBoth twoWriters 1 atLowerStore := by
  have henters : Enters .asBuilt readBoth twoWriters
      ⟨upperStore :: atLowerStore.stores, Slots.free 8, 8, twoWriters⟩ :=
    ⟨rfl, by decide, ends_pure.mpr ⟨rfl, rfl⟩, rfl⟩
  have hrunning : (roundRunning readBoth 1 upperStore (Slots.free 8) 8).Ends twoWriters
      (.ok (atLowerStore.rf, 4)) twoWriters := ends_of_runWith [] rfl
  have hcrashed : (roundCrashed .asBuilt readBoth upperStore atLowerStore.stores atLowerStore.rf 4).Ends
      twoWriters (.ok (some (atLowerStore.rf, 4))) twoWriters := ends_of_runWith [] rfl
  exact .intro henters (.single (.next hrunning hcrashed (by decide)))

/-- `undo_exact` where the read crashes process 0, tries its store again and decides that it has not
persisted. -/
theorem undo_exact_lowerStore : ∃ x s₁ y s₂,
    (roundRunning readBoth 1 lowerStore atLowerStore.rf 4).Ends twoWriters (.ok x) s₁ ∧
    CrashesWriter lowerStore twoWriters s₁ ∧
    (roundCrashed .asBuilt readBoth lowerStore (atLowerStore.stores.drop 1) x.1 x.2).Ends s₁ (.ok y) s₂ ∧
    LosesStore readBoth lowerStore s₁ s₂ ∧ x = (atLowerStore.rf, 4) ∧ y = some (atLowerStore.rf, 4) := by
  have hrunning : (roundRunning readBoth 1 lowerStore atLowerStore.rf 4).Ends twoWriters
      (.ok (atLowerStore.rf, 4)) (twoWriters.countCrashPoint.crash 0) := ends_of_runWith [0] rfl
  have hcrashed : (roundCrashed .asBuilt readBoth lowerStore (atLowerStore.stores.drop 1) atLowerStore.rf 4).Ends
      (twoWriters.countCrashPoint.crash 0) (.ok (some (atLowerStore.rf, 4)))
      ((twoWriters.countCrashPoint.crash 0).lowerEnd 0 4096 1) := ends_of_runWith [0] rfl
  have hcrash : CrashesWriter lowerStore twoWriters (twoWriters.countCrashPoint.crash 0) := by decide
  have hlose : LosesStore readBoth lowerStore (twoWriters.countCrashPoint.crash 0)
      ((twoWriters.countCrashPoint.crash 0).lowerEnd 0 4096 1) := by decide
  have hexact := (undo_exact.2 .asBuilt readBoth twoWriters).2 1 atLowerStore readAt_atLowerStore
  obtain ⟨x, hx, _, hback, hround⟩ := hexact.round lowerStore _ rfl _ _ hrunning
  cases hx
  obtain ⟨y, hy, _, hlost⟩ := hround _ _ hcrashed
  cases hy
  exact ⟨_, _, _, _, hrunning, hcrash, hcrashed, hlose, hback hcrash, hlost hlose⟩

end Cxlmc
