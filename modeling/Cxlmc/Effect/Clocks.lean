import Cxlmc.System.Run

/-!
# The clocks of stores

`get_next_sequence_num` hands out the clock before it ticks, and the clock starts at `0`, which is the
clock of the initial value of a word and of an interval that nothing has moved. A store that is evicted
at clock `0` counts as persisted from the start. Where the first tick of an execution is one of a
`CLFLUSH`, and the clock does not wrap around, the clocks of every store list rise and only the initial
value has clock `0` (`clocks_apart`).
-/

namespace Cxlmc

open Stateful

/-- What `ensureInitialValue` records for a word. -/
def IsInitialValue (word : Nat) (a : ModelAction) : Prop :=
  a.type = .atomicInit ∧ a.location = word ∧ a.size = 8 ∧ a.tick = 0

/-- The ticks of each list rise, and those of the stores are positive. -/
def Model.TicksApart (s : Model) : Prop :=
  ∀ w, (s.objToWr w).Pairwise (fun a b => a.tick < b.tick) ∧
    ∀ a ∈ s.objToWr w, IsInitialValue w a ∨ 0 < a.tick

/-- An eviction of a store takes a clock other than `0`; every other effect. -/
def Effect.TicksLater (s : Model) : Effect → Prop
  | .popStore _ _ => 0 < s.nextSequenceNum
  | _ => True

/-- One effect, no store evicted at clock `0`. -/
def LaterStep (cfg : Config) (s : Model) (e : Effect) (s' : Model) : Prop :=
  MemStep cfg s e s' ∧ e.TicksLater s

section

variable {cfg : Config} {s s' : Model} {e : Effect}

/-- What has been evicted is older than the clock. -/
def Model.Ticked (s : Model) : Prop :=
  ∀ w, ∀ a ∈ s.objToWr w, a.tick = 0 ∨ a.tick < s.ticks

theorem MemStep.ticked (hcfg : cfg.memPoison = false) (h : MemStep cfg s e s') (ht : s.Ticked) :
    s'.Ticked := by
  intro w a ha
  have hnext : s.ticks ≤ s'.ticks := h.ticks_le hcfg
  have hold : a ∈ s.objToWr w → a.tick = 0 ∨ a.tick < s'.ticks := by
    intro ha
    rcases ht w a ha with hzero | hlt
    · exact .inl hzero
    · exact .inr (Nat.lt_of_lt_of_le hlt hnext)
  cases h.list hcfg w with
  | kept heq => exact hold (heq ▸ ha)
  | evicted t b rest he _ _ _ heq =>
      rw [heq] at ha
      rcases List.mem_append.mp ha with ha | ha
      · exact hold ha
      · rw [List.mem_singleton.mp ha, h.ticks hcfg, he]
        exact .inr (Nat.lt_succ_self _)
  | initial _ _ _ heq =>
      rw [heq] at ha
      rw [List.mem_singleton.mp ha]
      exact .inl rfl

theorem Model.Ticked.tick_lt {word : Nat} {a : ModelAction} (ht : s.Ticked) (ha : a ∈ s.objToWr word)
    (hticks : s.ticks < 2 ^ 32) : a.tick < 2 ^ 32 := by
  rcases ht word a ha with hzero | hlt
  · rw [hzero]
    decide
  · exact Nat.lt_trans hlt hticks

/-- The numbers of each list rise, the initial value and the first number taken apart. -/
def Model.Rising (s : Model) : Prop := ∀ w, (s.objToWr w).Pairwise fun a b => a.tick ≤ b.tick

theorem MemStep.rising (hcfg : cfg.memPoison = false) (h : MemStep cfg s e s') (ht : s.Ticked)
    (hr : s.Rising) : s'.Rising := by
  intro w
  cases h.list hcfg w with
  | kept heq =>
      rw [heq]
      exact hr w
  | evicted _ _ _ _ _ _ _ heq =>
      rw [heq]
      refine List.pairwise_append.mpr ⟨hr w, List.pairwise_singleton _ _, ?_⟩
      intro x hx y hy
      rw [List.mem_singleton.mp hy]
      show x.tick ≤ s.ticks
      rcases ht w x hx with hzero | hlt
      · rw [hzero]
        exact Nat.zero_le _
      · exact Nat.le_of_lt hlt
  | initial _ _ _ heq =>
      rw [heq]
      exact List.pairwise_singleton _ _

/-- In every state that is reached the numbers rise and lie in the past. -/
theorem Goes.rising {P : Effect → Prop} {n cxlMapping : Nat} {memory : Nat → Nat}
    {mutexType : MutexId → MutexType} (hcfg : cfg.memPoison = false)
    (h : Goes (MemStep cfg) P (Model.init n cxlMapping memory mutexType) s) : s.Ticked ∧ s.Rising := by
  apply h.invariant (I := fun a => a.Ticked ∧ a.Rising)
  · intro a e b _ ⟨ht, hr⟩ hstep
    exact ⟨hstep.ticked hcfg ht, hstep.rising hcfg ht hr⟩
  · exact ⟨fun _ _ ha => absurd ha List.not_mem_nil, fun _ => .nil⟩

/-- Below the wrap the clocks rise with them. -/
theorem Model.Rising.clocks (hr : s.Rising) (ht : s.Ticked) (hticks : s.ticks < 2 ^ 32) (w : Nat) :
    (s.objToWr w).Pairwise fun a b => a.seqNum ≤ b.seqNum := by
  refine (hr w).imp_of_mem ?_
  intro a b ha hb hle
  rw [ModelAction.seqNum_of_lt (ht.tick_lt ha hticks), ModelAction.seqNum_of_lt (ht.tick_lt hb hticks)]
  exact hle

/-- An effect keeps the ticks apart unless it evicts a store at clock `0`. -/
theorem MemStep.ticksApart (hcfg : cfg.memPoison = false) (h : MemStep cfg s e s')
    (hlater : e.TicksLater s) (ht : s.Ticked) (hs : s.TicksApart) : s'.TicksApart := by
  intro w
  obtain ⟨hpair, hpos⟩ := hs w
  cases h.list hcfg w with
  | kept heq =>
      rw [heq]
      exact ⟨hpair, hpos⟩
  | evicted t b rest he _ _ _ heq =>
      rw [heq]
      subst he
      have hpositive : 0 < s.ticks := Nat.lt_of_lt_of_le hlater (modelclock_le _)
      constructor
      · refine List.pairwise_append.mpr ⟨hpair, List.pairwise_singleton _ _, ?_⟩
        intro a ha c hc
        rw [List.mem_singleton.mp hc]
        rcases ht _ a ha with hzero | hlt
        · show a.tick < s.ticks
          rw [hzero]
          exact hpositive
        · exact hlt
      · intro a ha
        rcases List.mem_append.mp ha with ha | ha
        · exact hpos a ha
        · rw [List.mem_singleton.mp ha]
          exact .inr hpositive
  | initial _ _ _ heq =>
      rw [heq]
      refine ⟨List.pairwise_singleton _ _, ?_⟩
      intro a ha
      rw [List.mem_singleton.mp ha]
      exact .inl ⟨rfl, rfl, rfl, rfl⟩

/-- Below the wrap the clocks are as the ticks are. -/
theorem Model.TicksApart.clocks (hs : s.TicksApart) (ht : s.Ticked) (hticks : s.ticks < 2 ^ 32) (w : Nat) :
    (s.objToWr w).Pairwise (fun a b => a.seqNum < b.seqNum) ∧
      ∀ a ∈ s.objToWr w, IsInitialValue w a ∨ 0 < a.seqNum := by
  have hclock : ∀ a ∈ s.objToWr w, a.seqNum = a.tick := fun _ ha => ModelAction.seqNum_of_lt (ht.tick_lt ha hticks)
  obtain ⟨hpair, hpos⟩ := hs w
  constructor
  · refine hpair.imp_of_mem ?_
    intro a b ha hb hlt
    rw [hclock a ha, hclock b hb]
    exact hlt
  · intro a ha
    rw [hclock a ha]
    exact hpos a ha

/-- A store on a line that nothing has moved may have persisted or not. -/
theorem Model.TicksApart.mayPersist {w : Nat} {a : ModelAction} (hs : s.TicksApart) (ht : s.Ticked)
    (hticks : s.ticks < 2 ^ 32) (ha : a ∈ s.objToWr w) (hnot : ¬ IsInitialValue w a)
    (hnew : s.objToCl (s.getProcessId a) a.line = Cacheline.new) :
    (s.objToCl (s.getProcessId a) a.line).MayPersist a.seqNum := by
  have hpos := ((hs.clocks ht hticks w).2 a ha).resolve_left hnot
  rw [hnew]
  exact ⟨hpos, .inl rfl⟩

theorem Goes.ticksApart {n cxlMapping : Nat} {memory : Nat → Nat} {mutexType : MutexId → MutexType}
    (hcfg : cfg.memPoison = false)
    (h : Goes (LaterStep cfg) (fun _ => True) (Model.init n cxlMapping memory mutexType) s) :
    s.Ticked ∧ s.TicksApart := by
  apply h.invariant (I := fun a => a.Ticked ∧ a.TicksApart)
  · intro a e b _ ⟨ht, hs⟩ ⟨hstep, hlater⟩
    exact ⟨hstep.ticked hcfg ht, hstep.ticksApart hcfg hlater ht hs⟩
  · exact ⟨fun _ _ ha => absurd ha List.not_mem_nil, fun _ => ⟨.nil, nofun⟩⟩

/-- In every run of effects that evicts no store at clock `0` and takes fewer than `2 ^ 32` numbers from the
clock, the clocks of each list rise, only the initial values have clock `0`, and a store on a line that
nothing has moved may have persisted or not. -/
theorem clocks_apart {n cxlMapping : Nat} {memory : Nat → Nat} {mutexType : MutexId → MutexType}
    (h : Goes (LaterStep .asBuilt) (fun _ => True) (Model.init n cxlMapping memory mutexType) s)
    (hticks : s.ticks < 2 ^ 32) :
    (∀ w, (s.objToWr w).Pairwise (fun a b => a.seqNum < b.seqNum) ∧
      ∀ a ∈ s.objToWr w, IsInitialValue w a ∨ 0 < a.seqNum) ∧
    ∀ w, ∀ a ∈ s.objToWr w, ¬ IsInitialValue w a →
      s.objToCl (s.getProcessId a) a.line = Cacheline.new →
      (s.objToCl (s.getProcessId a) a.line).MayPersist a.seqNum := by
  obtain ⟨ht, hapart⟩ := Goes.ticksApart rfl h
  exact ⟨hapart.clocks ht hticks, fun _ _ => hapart.mayPersist ht hticks⟩

end

/-- The list of 4096 is its initial value and a store, and both have the clock 0. -/
def firstStoreUnclocked (s : Model) : Bool :=
  match s.objToWr 4096 with
  | [a, b] => decide (¬ a.seqNum < b.seqNum) && decide (b.type = .nonatomicStore) &&
      decide (b.seqNum = 0) && decide ((s.objToCl (s.getProcessId b) b.line).getBegin = 0)
  | _ => false

/-- The first store of a run, evicted by a fence, has the clock of the initial value: the crash of its
process could not lose it. -/
theorem clocks_not_apart : ∃ tr s,
    IsRun .asBuilt 1 4096 (fun _ => 0) (fun _ => .default) tr s ∧
    ∃ a b, s.objToWr 4096 = [a, b] ∧ ¬ a.seqNum < b.seqNum ∧ b.type = .nonatomicStore ∧
      b.seqNum = 0 ∧ (s.objToCl (s.getProcessId b) b.line).getBegin = 0 ∧
      ¬ (s.objToCl (s.getProcessId b) b.line).MayPersist b.seqNum := by
  obtain ⟨tr, s, hrun, hcheck⟩ := exists_run_of_replay .asBuilt
    (Model.init 1 4096 (fun _ => 0) (fun _ => .default))
    [({ call := .store 4096 .w64 1 }, []), ({}, []), ({}, []),
      ({ call := .mfence 4096 }, []), ({}, [])]
    (fun _ s => firstStoreUnclocked s) (by decide +kernel)
  unfold firstStoreUnclocked at hcheck
  split at hcheck
  · next a b hlist =>
      simp only [Bool.and_eq_true, decide_eq_true_eq] at hcheck
      obtain ⟨⟨⟨hlt, htype⟩, hseq⟩, hbegin⟩ := hcheck
      refine ⟨tr, s, ⟨by decide, hrun⟩, a, b, hlist, hlt, htype, hseq, hbegin, ?_⟩
      intro hmay
      rw [hseq] at hmay
      exact absurd hmay.1 (Nat.not_lt_zero _)
  · cases hcheck

/-- `clocks_apart` where a `CLFLUSH` ticks the clock before a store is evicted. -/
theorem clocks_apart_flushFirst : ∃ s,
    Goes (LaterStep .asBuilt) (fun _ => True)
      (Model.init 1 4096 (fun _ => 0) (fun _ => .default)) s ∧
    (s.objToWr 4096).length = 2 ∧
    (∀ w, (s.objToWr w).Pairwise (fun a b => a.seqNum < b.seqNum) ∧
      ∀ a ∈ s.objToWr w, IsInitialValue w a ∨ 0 < a.seqNum) ∧
    ∀ w, ∀ a ∈ s.objToWr w, ¬ IsInitialValue w a →
      s.objToCl (s.getProcessId a) a.line = Cacheline.new →
      (s.objToCl (s.getProcessId a) a.line).MayPersist a.seqNum := by
  let flush : ModelAction := { tid := 0, type := .cacheClflush, location := 8192 }
  let store : ModelAction :=
    { tid := 0, type := .nonatomicStore, location := 4096, value := 1, order := .relaxed, size := 8 }
  have hpath : ∃ s, Goes (LaterStep .asBuilt) (fun _ => True)
      (Model.init 1 4096 (fun _ => 0) (fun _ => .default)) s ∧ (s.objToWr 4096).length = 2 ∧ s.ticks = 2 := by
    refine ⟨_, (Goes.single ⟨MemStep.initial 4096 rfl rfl, trivial⟩ trivial).trans
      ((Goes.single ⟨MemStep.push flush rfl rfl rfl rfl, trivial⟩ trivial).trans
      ((Goes.single ⟨MemStep.popClflush 0 flush [] rfl rfl, trivial⟩ trivial).trans
      ((Goes.single ⟨MemStep.push store rfl rfl rfl rfl, trivial⟩ trivial).trans
      (Goes.single ⟨MemStep.popStore 0 store [] rfl rfl, ?_⟩ trivial)))), ?_⟩
    · exact Nat.one_pos
    · decide +kernel
  obtain ⟨s, hgoes, hlength, hticks⟩ := hpath
  refine ⟨s, hgoes, hlength, clocks_apart hgoes ?_⟩
  rw [hticks]
  decide

end Cxlmc
