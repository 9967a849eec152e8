import Cxlmc.System.ProgramOrder
import Cxlmc.System.Tso

/-!
# Stores and synchronisation

Neither an unlock nor the end of a thread drains a store buffer. What another thread loads once it has
taken the mutex, or has joined the thread, is the store where this happens to have left the buffer by
then, and the initial memory where it has not (`store_visible`).
-/

namespace Cxlmc

open Stateful Fill

/-- The two have bytes in common. -/
def ModelAction.Meets (a b : ModelAction) : Prop :=
  a.location < b.location + b.size ∧ b.location < a.location + a.size

instance (a b : ModelAction) : Decidable (a.Meets b) := inferInstanceAs (Decidable (_ ∧ _))

/-- The value of a load from the place of the store has the bytes of the store. -/
def ModelAction.SeenIn (a : ModelAction) (v : Nat) : Prop :=
  ∀ k, k < a.size → byteOf v k = a.byteAt (a.location + k)

/-- The initial memory has the bytes of the store. -/
def ModelAction.InMemory (a : ModelAction) (memory : Nat → Nat) : Prop :=
  ∀ k, k < a.size → memory (a.location + k) &&& 0xff = a.byteAt (a.location + k)

/-- At the first step a thread unlocks a mutex that it owns, or it ends; at the second a thread has
acquired the mutex, or returns from joining the first. -/
inductive HandsOver (r q : Model × Label × Model) : Prop where
  | mutex (m : MutexId) (a b : ModelAction) (v w : Nat) (rf rf' : Slots)
      (hunlock : r.2.1.event = .executed a v rf) (htype : a.type = .atomicUnlock)
      (hmutex : a.location = m) (howned : (r.1.mutexes m).owner = some r.2.1.tid)
      (hlock : q.2.1.event = .executed b w rf')
      (htype' : b.type = .atomicLock ∨ b.type = .atomicTrylock) (hmutex' : b.location = m)
      (howner : (q.2.2.mutexes m).owner = some q.2.1.tid)
  | join (a b : ModelAction) (v : Nat) (rf : Slots) (hfinish : r.2.1.event = .finished a)
      (hjoin : q.2.1.event = .executed b v rf) (htype : b.type = .pthreadJoin)
      (hthread : b.location = r.2.1.tid)

/-- In these steps `t` hands over to `u`, another thread. -/
structure Synchronised (t u : ThreadId) (steps : List (Model × Label × Model)) : Prop where
  other : u ≠ t
  passes : ∃ before r between q after, steps = before ++ r :: (between ++ q :: after) ∧
    r.2.1.tid = t ∧ q.2.1.tid = u ∧ HandsOver r q

section

variable {cfg : Config} {s s' : Model} {a b c : ModelAction} {t u : ThreadId} {i : Nat}
  {before after evicted : List ModelAction}

theorem ModelAction.Covers.meets {addr : Nat} (h : a.Covers addr) (h' : b.Covers addr) : a.Meets b := by
  unfold Covers at h h'
  unfold Meets
  omega

/-- A load from the place of the store. -/
structure ModelAction.LoadsAt (b a : ModelAction) : Prop where
  load : b.isLoad = true
  location : b.location = a.location
  size : b.size = a.size

/-! ## Where the store is -/

/-- The stores of `t` up to a point are one that meets the place and others that do not: it is in the
buffer of `t` and no evicted store of `t` meets the place, or the other way round. -/
theorem Model.InOrder.place (hi : s.InOrder t evicted (before ++ a.copy :: after))
    (hsize : 0 < a.size) (hbefore : ∀ c ∈ before, ¬ c.Meets a) (hafter : ∀ c ∈ after, ¬ c.Meets a) :
    ((∃ c ∈ s.bufferedStores t, c.Meets a) ∧ ∀ c ∈ evicted, ¬ c.Meets a) ∨
      (∀ c ∈ s.bufferedStores t, ¬ c.Meets a) ∧ ∃ c ∈ evicted, c.unsequenced = a.copy := by
  have hself : a.copy.Meets a := by
    show a.location < a.location + a.size ∧ a.location < a.location + a.size
    omega
  have heq := hi.executed_eq
  rw [List.append_eq_append_iff] at heq
  rcases heq with ⟨mid, hevicted, hrest⟩ | ⟨mid, hfront, hbuffered⟩
  · cases mid with
    | nil =>
        -- the store is the first of the buffer
        left
        rw [List.nil_append] at hrest
        rw [List.append_nil] at hevicted
        refine ⟨⟨a.copy, ?_, hself⟩, ?_⟩
        · rw [← hrest]
          exact List.mem_cons_self
        · intro c hc
          have hmem : c.unsequenced ∈ before := by
            rw [← hevicted]
            exact List.mem_map_of_mem hc
          exact hbefore c.unsequenced hmem
    | cons d mid =>
        right
        obtain ⟨rfl, rfl⟩ := List.cons.inj hrest
        constructor
        · intro c hc
          exact hafter c (List.mem_append_right _ hc)
        · have hmem : a.copy ∈ evicted.map (·.unsequenced) := by
            rw [hevicted]
            exact List.mem_append_right _ List.mem_cons_self
          obtain ⟨c, hc, heq⟩ := List.mem_map.mp hmem
          exact ⟨c, hc, heq⟩
  · left
    refine ⟨⟨a.copy, ?_, hself⟩, ?_⟩
    · rw [hbuffered]
      exact List.mem_append_right _ List.mem_cons_self
    · intro c hc
      have hmem : c.unsequenced ∈ before := by
        rw [hfront]
        exact List.mem_append_left _ (List.mem_map_of_mem hc)
      exact hbefore c.unsequenced hmem

/-- Where nothing that was executed meets the place, neither the buffer nor the evicted stores do. -/
theorem Model.InOrder.not_meets (hi : s.InOrder t evicted before) (hbefore : ∀ c ∈ before, ¬ c.Meets a) :
    (∀ c ∈ s.bufferedStores t, ¬ c.Meets a) ∧ ∀ c ∈ evicted, ¬ c.Meets a := by
  rw [hi.executed_eq] at hbefore
  constructor
  · intro c hc
    exact hbefore c (List.mem_append_right _ hc)
  · intro c hc
    exact hbefore c.unsequenced (List.mem_append_left _ (List.mem_map_of_mem hc))

/-- One store of `t` is all that was stored to the place, and no other thread has it in its buffer. -/
structure Model.StoredOnce (s : Model) (t : ThreadId) (a : ModelAction) : Prop where
  others : ∀ u, u ≠ t → ∀ c ∈ s.bufferedStores u, ¬ c.Meets a
  evicted : ∀ w, ∀ c ∈ s.storesOf w, c.Meets a → c.unsequenced = a.copy
  place : ((∃ c ∈ s.bufferedStores t, c.Meets a) ∧ ∀ w, ∀ c ∈ s.storesOf w, ¬ c.Meets a) ∨
    (∀ c ∈ s.bufferedStores t, ¬ c.Meets a) ∧ ∃ w, ∃ c ∈ s.storesOf w, c.unsequenced = a.copy

/-! ## The load -/

theorem Model.mem_bufferedStores (hc : c ∈ (s.threadMemory t).storeBuffer) (hw : c.isWrite = true) :
    c ∈ s.bufferedStores t :=
  List.mem_filter.mpr ⟨hc, hw⟩

theorem ModelAction.Cuts.meets (h : c.Cuts b) : c.Meets b := by
  unfold Cuts at h
  unfold Meets
  omega

theorem ModelAction.LoadsAt.meets_iff (hb : b.LoadsAt a) : c.Meets b ↔ c.Meets a := by
  unfold Meets
  rw [hb.location, hb.size]

theorem ModelAction.covers_add (hi : i < b.size) : b.Covers (b.location + i) :=
  ⟨Nat.le_add_right .., Nat.add_lt_add_left hi _⟩

/-- The reader has no store to the place in its own buffer. -/
theorem Model.StoredOnce.seesOwn (hs : s.StoredOnce t a) (hb : b.LoadsAt a) (hother : b.tid ≠ t) :
    s.SeesOwn b ∧ ∀ i, i < b.size → s.newestBuffered b.tid (b.location + i) = none := by
  have hnot : ∀ c ∈ (s.threadMemory b.tid).storeBuffer, c.isWrite = true → ¬ c.Meets b := by
    intro c hc hw hmeets
    exact hs.others b.tid hother c (Model.mem_bufferedStores hc hw) (hb.meets_iff.mp hmeets)
  have hnone : ∀ i, i < b.size → s.newestBuffered b.tid (b.location + i) = none := by
    intro i hi
    unfold Model.newestBuffered
    rw [List.find?_eq_none]
    intro c hc hcond
    simp only [Bool.and_eq_true, decide_eq_true_eq] at hcond
    exact hnot c (List.mem_reverse.mp hc) hcond.1 (hcond.2.meets (ModelAction.covers_add hi))
  refine ⟨⟨?_, ?_, ?_⟩, hnone⟩
  · intro _ i hi c hc
    rw [hnone i hi] at hc
    cases hc
  · intro _ c hc hw i hi hcovers
    exact absurd (hcovers.meets (ModelAction.covers_add hi)) (hnot c hc hw)
  · intro c hc hlooked hcuts
    have hw : c.isWrite = true := by
      rcases hlooked with htype | ⟨_, hw⟩
      · exact isWrite_of_nonatomicStore htype
      · exact hw
    exact hnot c hc hw hcuts.meets

theorem Model.StoredOnce.reaches (hs : s.StoredOnce t a) (hr : s.Recorded) (hb : b.LoadsAt a)
    (haligned : a.NaturallyAligned) : s.Reaches b := by
  have hword : b.word = a.word := by
    unfold ModelAction.word
    rw [hb.location]
  have hsame : ∀ w, ∀ c ∈ s.storesOf w, c.Meets b → c.unsequenced = a.copy :=
    fun w c hc hmeets => hs.evicted w c hc (hb.meets_iff.mp hmeets)
  constructor
  · intro w c hc i hi hcovers
    have heq := hsame w c hc (hcovers.meets (ModelAction.covers_add hi))
    have hfiled := (hr.listed w c (mem_of_mem_evictedStores hc)).2
    have hloc : c.unsequenced.location = a.copy.location := congrArg ModelAction.location heq
    rw [← hfiled, hword]
    exact congrArg alignAddress hloc
  · intro c hc hcuts
    have hloc : c.unsequenced.location = a.copy.location :=
      congrArg ModelAction.location (hsame _ c hc hcuts.meets)
    have hlt : a.copy.location < b.location := by
      rw [← hloc]
      exact hcuts.1
    rw [hb.location] at hlt
    exact absurd hlt (Nat.lt_irrefl _)
  · intro i hi hpast
    have hin := haligned.inWord
    rw [hword, hb.location] at hpast
    rw [hb.size] at hi
    omega

/-- What the load finds at a byte of the store: the store if it is evicted, or the initial memory. -/
theorem Model.StoredOnce.holdsByte_iff {memory : Nat → Nat} {addr v : Nat} (hs : s.StoredOnce t a)
    (hcovers : a.Covers addr) (hb : s.HoldsByte memory addr v) :
    ((∀ c ∈ s.bufferedStores t, ¬ c.Meets a) → v = a.byteAt addr) ∧
      ((∃ c ∈ s.bufferedStores t, c.Meets a) → v = memory addr &&& 0xff) := by
  constructor
  · intro hout
    obtain ⟨w, c, hc, heq⟩ : ∃ w, ∃ c ∈ s.storesOf w, c.unsequenced = a.copy := by
      rcases hs.place with ⟨⟨c, hc, hmeets⟩, _⟩ | ⟨_, hevicted⟩
      · exact absurd hmeets (hout c hc)
      · exact hevicted
    rcases hb with ⟨d, hd, rfl⟩ | ⟨hnone, _⟩
    · obtain ⟨w', hw'⟩ := hd.evicted
      have heq := hs.evicted w' d hw' (hd.covers.meets hcovers)
      have hbytes : d.byteAt addr = d.unsequenced.byteAt addr := rfl
      rw [hbytes, heq]
      rfl
    · have hc' : c.unsequenced.Covers addr := by
        rw [heq]
        exact hcovers
      exact absurd hc' (hnone w c hc)
  · rintro ⟨c, hc, hmeets⟩
    have hnone : ∀ w, ∀ d ∈ s.storesOf w, ¬ d.Meets a := by
      rcases hs.place with ⟨_, hnone⟩ | ⟨hout, _⟩
      · exact hnone
      · exact absurd hmeets (hout c hc)
    rcases hb with ⟨d, hd, _⟩ | ⟨_, hbyte⟩
    · obtain ⟨w, hw⟩ := hd.evicted
      exact absurd (hd.covers.meets hcovers) (hnone w d hw)
    · exact hbyte

/-! ## Runs -/

/-- No store of these steps meets the place. -/
def AvoidsPlace (a : ModelAction) (steps : List (Model × Label × Model)) : Prop :=
  ∀ z ∈ steps, ∀ c ∈ z.2.1.event.stores z.1, ¬ c.Meets a

theorem AvoidsPlace.executedStores {steps : List (Model × Label × Model)} (h : AvoidsPlace a steps)
    (t : ThreadId) : ∀ c ∈ executedStores t steps, ¬ c.Meets a := by
  intro c hc
  obtain ⟨z, hz, hmem⟩ := List.mem_flatMap.mp hc
  split at hmem
  · exact h z hz c hmem
  · cases hmem

variable {n cxlMapping : Nat} {memory : Nat → Nat} {mutexType : MutexId → MutexType}
  {tr : List (Model × Label)} {pre mid post : List (Model × Label × Model)}
  {x y : Model × Label × Model} {v w : Nat} {rf rf' : Slots}

/-- Where all other stores of a run avoid the place of one, this is all that was stored to it. -/
theorem IsRun.storedOnce (hcfg : cfg.memPoison = false)
    (hrun : IsRun cfg n cxlMapping memory mutexType tr s') (hfree : CrashFree tr s')
    (hsteps : stepsOf tr s' = pre ++ x :: (mid ++ y :: post))
    (hstore : x.2.1.event = .executed a v rf) (hwrite : a.isWrite = true) (hsize : 0 < a.size)
    (hpre : AvoidsPlace a pre) (hmid : AvoidsPlace a mid) : y.1.StoredOnce x.2.1.tid a := by
  have hsplit : stepsOf tr s' = (pre ++ x :: mid) ++ y :: post := by
    rw [hsteps, List.append_assoc, List.cons_append]
  have hdone := (hrun.inOrder hcfg hfree).1 _ _ _ hsplit
  have hstores : x.2.1.event.stores x.1 = [a.copy] := by
    rw [hstore, Event.stores, if_pos hwrite]
  have hexecuted : ∀ u, executedStores u (pre ++ x :: mid) =
      executedStores u pre ++ ((if x.2.1.tid = u then [a.copy] else []) ++ executedStores u mid) := by
    intro u
    rw [← hstores]
    simp only [executedStores, List.flatMap_append, List.flatMap_cons]
  have hown : executedStores x.2.1.tid (pre ++ x :: mid) =
      executedStores x.2.1.tid pre ++ a.copy :: executedStores x.2.1.tid mid := by
    rw [hexecuted, if_pos rfl, List.singleton_append]
  have hother : ∀ u, u ≠ x.2.1.tid → ∀ c ∈ executedStores u (pre ++ x :: mid), ¬ c.Meets a := by
    intro u hu c hc
    rw [hexecuted, if_neg hu.symm, List.nil_append] at hc
    rcases List.mem_append.mp hc with hc | hc
    · exact hpre.executedStores u c hc
    · exact hmid.executedStores u c hc
  obtain ⟨evicted, hi⟩ := hdone x.2.1.tid
  rw [hown] at hi
  have hplace := hi.place hsize (hpre.executedStores _) (hmid.executedStores _)
  -- an evicted store is one of the thread, or of one that stores elsewhere
  have hevicted : ∀ w, ∀ c ∈ y.1.storesOf w, c.Meets a → c ∈ evicted := by
    intro w c hc hmeets
    by_cases htid : c.tid = x.2.1.tid
    · exact (hi.mem_evicted c).mpr ⟨htid, w, hc⟩
    · obtain ⟨evicted', hi'⟩ := hdone c.tid
      have hmem : c ∈ evicted' := (hi'.mem_evicted c).mpr ⟨rfl, w, hc⟩
      exact absurd hmeets ((hi'.not_meets (hother c.tid htid)).2 c hmem)
  constructor
  · intro u hu
    obtain ⟨evicted', hi'⟩ := hdone u
    exact (hi'.not_meets (hother u hu)).1
  · intro w c hc hmeets
    have hmem : c.unsequenced ∈
        executedStores x.2.1.tid pre ++ a.copy :: executedStores x.2.1.tid mid := by
      rw [hi.executed_eq]
      exact List.mem_append_left _ (List.mem_map_of_mem (hevicted w c hc hmeets))
    rcases List.mem_append.mp hmem with hbefore | hmem
    · exact absurd hmeets (hpre.executedStores _ c.unsequenced hbefore)
    · rcases List.mem_cons.mp hmem with heq | hafter
      · exact heq
      · exact absurd hmeets (hmid.executedStores _ c.unsequenced hafter)
  · rcases hplace with ⟨hbuffered, hnone⟩ | ⟨hout, c, hc, heq⟩
    · left
      refine ⟨hbuffered, ?_⟩
      intro w c hc hmeets
      exact hnone c (hevicted w c hc hmeets) hmeets
    · right
      obtain ⟨_, hw⟩ := (hi.mem_evicted c).mp hc
      obtain ⟨w, hw⟩ := hw
      exact ⟨hout, w, c, hw, heq⟩

/-- A step that avoids the place of the store keeps its bytes, and so does the store. -/
theorem ModelAction.keepsByte {e : Event} {k : Nat} (hb : b.LoadsAt a) (hk : k < b.size)
    (havoids : ∀ c ∈ e.stores s, ¬ c.Meets a) : e.KeepsByte s b.word (b.location + k) := by
  cases e with
  | executed c w rf =>
      constructor
      · intro hw hcovers
        have hmem : c.copy ∈ (Event.executed c w rf).stores s := by
          rw [Event.stores, if_pos hw]
          exact List.mem_singleton_self _
        have hmeets : c.copy.Meets b := hcovers.meets (ModelAction.covers_add hk)
        exact absurd (hb.meets_iff.mp hmeets) (havoids c.copy hmem)
      · intro htype hle hlt
        have hmem : s.createEntry c ∈ (Event.executed c w rf).stores s := by
          rw [Event.stores, if_neg (by simp [ModelAction.isWrite, htype]), if_pos htype]
          exact List.mem_singleton_self _
        have hmeets : (s.createEntry c).Meets b := by
          have hcovers : (s.createEntry c).Covers (b.location + k) := ⟨hle, hlt⟩
          exact hcovers.meets (ModelAction.covers_add hk)
        exact absurd (hb.meets_iff.mp hmeets) (havoids _ hmem)
  | _ => trivial

theorem ModelAction.store_keepsByte {k : Nat} (hb : b.LoadsAt a) (hwrite : a.isWrite = true) :
    (Event.executed a v rf).KeepsByte s b.word (b.location + k) := by
  constructor
  · intro _ _
    unfold ModelAction.word
    rw [hb.location]
  · intro htype
    simp [ModelAction.isWrite, htype] at hwrite

/-- A thread stores to a naturally aligned place and hands over to another, which loads from the place,
and nothing else is stored there: the load returns the store if and only if it is no longer in the
store buffer of its thread, or the initial memory had the same bytes. -/
theorem store_visible (hcfg : cfg.memPoison = false)
    (hrun : IsRun cfg n cxlMapping memory mutexType tr s') (hfree : CrashFree tr s')
    (hsteps : stepsOf tr s' = pre ++ x :: (mid ++ y :: post))
    (hstore : x.2.1.event = .executed a v rf) (hwrite : a.isWrite = true)
    (haligned : a.NaturallyAligned) (hsync : Synchronised x.2.1.tid y.2.1.tid mid)
    (hload : y.2.1.event = .executed b w rf') (hb : b.LoadsAt a)
    (honly : AvoidsPlace a (pre ++ (mid ++ y :: post))) :
    a.SeenIn w ↔ (∀ c ∈ y.1.bufferedStores x.2.1.tid, ¬ c.Meets a) ∨ a.InMemory memory := by
  have hpre : AvoidsPlace a pre := fun z hz => honly z (List.mem_append_left _ hz)
  have hrest : AvoidsPlace a (mid ++ y :: post) := fun z hz => honly z (List.mem_append_right _ hz)
  have hmid : AvoidsPlace a mid := fun z hz => hrest z (List.mem_append_left _ hz)
  have honce := hrun.storedOnce hcfg hfree hsteps hstore hwrite haligned.size_pos hpre hmid
  have hy : y ∈ stepsOf tr s' := by simp [hsteps]
  obtain ⟨hplaced, hl, htid, hcase⟩ := (hrun.listed hcfg).1 y hy
  rw [hload] at hcase
  obtain ⟨_, hself, _, _, _⟩ := hcase.load hplaced hb.load
  have hother : b.tid ≠ x.2.1.tid := by
    rw [hself, ← htid]
    exact hsync.other
  obtain ⟨hown, hnone⟩ := honce.seesOwn hb hother
  have hreaches := honce.reaches hl.recorded hb haligned
  -- byte by byte, the load finds what the lists hold
  have hbyte : ∀ k, k < a.size → y.1.HoldsByte memory (a.location + k) (byteOf w k) := by
    intro k hk
    rw [← hb.size] at hk
    have hkept : b.location + k < b.word + 8 →
        y.1.ByteKept memory b.word (b.location + k) := by
      intro hlt
      refine (hrun.byteKept hcfg (b.word_le_location k) hlt ?_).1 y hy
      intro z hz
      rw [hsteps] at hz
      rcases List.mem_append.mp hz with hz | hz
      · exact ModelAction.keepsByte hb hk (hpre z hz)
      · rcases List.mem_cons.mp hz with rfl | hz
        · rw [hstore]
          exact ModelAction.store_keepsByte hb hwrite
        · exact ModelAction.keepsByte hb hk (hrest z hz)
    have htso := hcase.load_tsoByte hcfg hplaced hb.load (hfree y hy) hown hreaches hl hkept hk
    rw [← hself] at htso
    rcases htso with ⟨c, hc, _⟩ | ⟨_, hheld⟩
    · rw [hnone k hk] at hc
      cases hc
    · rw [hb.location] at hheld
      exact hheld
  have hvalue : ∀ k, k < a.size → _ := fun k hk =>
    honce.holdsByte_iff (ModelAction.covers_add hk) (hbyte k hk)
  constructor
  · intro hseen
    by_cases hout : ∀ c ∈ y.1.bufferedStores x.2.1.tid, ¬ c.Meets a
    · exact .inl hout
    · right
      push Not at hout
      intro k hk
      rw [← hseen k hk]
      exact ((hvalue k hk).2 hout).symm
  · intro hcond k hk
    by_cases hout : ∀ c ∈ y.1.bufferedStores x.2.1.tid, ¬ c.Meets a
    · exact (hvalue k hk).1 hout
    · rcases hcond with h | hmem
      · exact absurd h hout
      · push Not at hout
        rw [(hvalue k hk).2 hout, hmem k hk]

end

/-! ## A store that is evicted in time and one that is not -/

/-- The list is divided at the position `i`. -/
def divided {α : Type} (i : Nat) (l : List α) (p : List α → α → List α → Bool) : Bool :=
  match l.drop i with
  | x :: after => p (l.take i) x after
  | [] => false

theorem exists_of_divided {α : Type} {i : Nat} {l : List α} {p : List α → α → List α → Bool}
    (h : divided i l p = true) : ∃ before x after, l = before ++ x :: after ∧ p before x after = true := by
  unfold divided at h
  split at h
  case h_1 x after heq =>
    refine ⟨l.take i, x, after, ?_, h⟩
    rw [← heq, List.take_append_drop]
  case h_2 => cases h

/-- Thread 0 unlocks the mutex 0, which it owns, and thread 1 locks it. -/
def unlocksAndLocks (r q : Model × Label × Model) : Bool :=
  match r.2.1.event, q.2.1.event with
  | .executed a _ _, .executed b _ _ =>
      decide (r.2.1.tid = 0 ∧ q.2.1.tid = 1 ∧ a.type = .atomicUnlock ∧ a.location = 0 ∧
        b.type = .atomicLock ∧ b.location = 0 ∧ (r.1.mutexes 0).owner = some 0 ∧
        (q.2.2.mutexes 0).owner = some 1)
  | _, _ => false

theorem synchronised_of_divided {steps : List (Model × Label × Model)} {i j : Nat}
    (h : (divided i steps fun _ r after => divided j after fun _ q _ => unlocksAndLocks r q) = true) :
    Synchronised 0 1 steps := by
  obtain ⟨before, r, _, rfl, hrest⟩ := exists_of_divided h
  obtain ⟨between, q, after, rfl, hlocks⟩ := exists_of_divided hrest
  refine ⟨by decide, before, r, between, q, after, rfl, ?_⟩
  unfold unlocksAndLocks at hlocks
  split at hlocks
  case h_1 a v rf b w rf' hunlock hlock =>
    obtain ⟨hr, hq, htype, hmutex, htype', hmutex', howned, howner⟩ :=
      of_decide_eq_true hlocks
    refine ⟨hr, hq, .mutex 0 a b v w rf rf' hunlock htype hmutex ?_ hlock (.inl htype') hmutex' ?_⟩
    · rw [hr]
      exact howned
    · rw [hq]
      exact howner
  case h_2 => cases hlocks

/-- Thread 0 stores 7 to the byte at 4096 and thread 1 loads `v` from it; all other stores avoid it, and
the store is in the buffer of thread 0 before the load if `buffered`. -/
def storesAndLoads (buffered : Bool) (v : Nat) (pre : List (Model × Label × Model))
    (x : Model × Label × Model) (mid : List (Model × Label × Model)) (y : Model × Label × Model)
    (post : List (Model × Label × Model)) : Bool :=
  match x.2.1.event, y.2.1.event with
  | .executed a _ _, .executed b w _ =>
      decide (x.2.1.tid = 0 ∧ y.2.1.tid = 1 ∧ a.isWrite = true ∧ a.NaturallyAligned ∧ a.size = 1 ∧
        a.byteAt a.location = 7 ∧ b.isLoad = true ∧ b.location = a.location ∧ b.size = a.size ∧
        w = v) &&
      ((pre ++ (mid ++ y :: post)).all fun z =>
        (z.2.1.event.stores z.1).all fun c => decide ¬ c.Meets a) &&
      (buffered || (y.1.bufferedStores 0).all fun c => decide ¬ c.Meets a)
  | _, _ => false

theorem storesAndLoads_iff {buffered : Bool} {v : Nat} {pre mid post : List (Model × Label × Model)}
    {x y : Model × Label × Model} (h : storesAndLoads buffered v pre x mid y post = true) :
    x.2.1.tid = 0 ∧ y.2.1.tid = 1 ∧ ∃ a n rf b rf', x.2.1.event = .executed a n rf ∧
      a.isWrite = true ∧ a.NaturallyAligned ∧ a.size = 1 ∧ a.byteAt a.location = 7 ∧
      y.2.1.event = .executed b v rf' ∧ b.LoadsAt a ∧ AvoidsPlace a (pre ++ (mid ++ y :: post)) ∧
      (buffered = false → ∀ c ∈ y.1.bufferedStores 0, ¬ c.Meets a) := by
  unfold storesAndLoads at h
  split at h
  case h_1 a n rf b w rf' hstore hload =>
    simp only [Bool.and_eq_true, Bool.or_eq_true, decide_eq_true_eq, List.all_eq_true] at h
    obtain ⟨⟨⟨hx, hy, hwrite, haligned, hsize, hbyte, hisload, hloc, hsame, rfl⟩, honly⟩, hout⟩ := h
    refine ⟨hx, hy, a, n, rf, b, rf', hstore, hwrite, haligned, hsize, hbyte, hload,
      ⟨hisload, hloc, hsame⟩, honly, ?_⟩
    intro hfalse
    rw [hfalse] at hout
    exact hout.resolve_left Bool.false_ne_true
  case h_2 => cases h

/-- `store_visible` for a store that a fence before the unlock evicts. -/
theorem store_visible_fenced : ∃ tr s pre x mid y post a b v w rf rf',
    IsRun .asBuilt 2 4096 (fun _ => 0) (fun _ => .default) tr s ∧ CrashFree tr s ∧
    stepsOf tr s = pre ++ x :: (mid ++ y :: post) ∧ x.2.1.event = .executed a v rf ∧
    Synchronised x.2.1.tid y.2.1.tid mid ∧ y.2.1.event = .executed b w rf' ∧ b.LoadsAt a ∧
    a.size = 1 ∧ a.byteAt a.location = 7 ∧ a.SeenIn w := by
  obtain ⟨tr, s, hrun, hcheck⟩ := exists_run_of_replay .asBuilt
    (Model.init 2 4096 (fun _ => 0) (fun _ => .default))
    [({ call := .lock 0 }, []), ({ call := .schedYield }, []), ({}, []), ({}, []),
      ({ call := .store 4096 .w8 7 }, []), ({}, []), ({}, []), ({ call := .mfence 4096 }, []),
      ({}, []), ({}, []), ({ call := .schedYield }, []), ({}, []), ({}, []),
      ({ call := .unlock 0 }, []), ({}, []), ({}, []), ({ call := .lock 0 }, []), ({}, []), ({}, []),
      ({ call := .schedYield }, []), ({}, []), ({}, []), ({ call := .load 4096 .w8 }, []), ({}, [])]
    (fun tr s => crashFree tr s && divided 5 (stepsOf tr s) fun pre x rest =>
      divided 17 rest fun mid y post => storesAndLoads false 7 pre x mid y post &&
        divided 11 mid fun _ r after => divided 2 after fun _ q _ => unlocksAndLocks r q)
    (by decide +kernel)
  rw [Bool.and_eq_true] at hcheck
  obtain ⟨hfree, hwhole⟩ := hcheck
  obtain ⟨pre, x, rest, hsteps, hrest⟩ := exists_of_divided hwhole
  obtain ⟨mid, y, post, rfl, hcheck⟩ := exists_of_divided hrest
  rw [Bool.and_eq_true] at hcheck
  obtain ⟨hx, hy, a, n, rf, b, rf', hstore, hwrite, haligned, hsize, hbyte, hload, hb, honly, hout⟩ :=
    storesAndLoads_iff hcheck.1
  have hrun' : IsRun .asBuilt 2 4096 (fun _ => 0) (fun _ => .default) tr s := ⟨by decide, hrun⟩
  have hfree := crashFree_iff hfree
  have hsync : Synchronised x.2.1.tid y.2.1.tid mid := by
    rw [hx, hy]
    exact synchronised_of_divided hcheck.2
  refine ⟨tr, s, pre, x, mid, y, post, a, b, n, 7, rf, rf', hrun', hfree, hsteps, hstore, hsync, hload,
    hb, hsize, hbyte, ?_⟩
  refine (store_visible rfl hrun' hfree hsteps hstore hwrite haligned hsync hload hb honly).mpr ?_
  left
  rw [hx]
  exact hout rfl

/-- An unlock leaves the store in the buffer, and the thread that has locked the mutex next loads the
initial memory. -/
theorem store_not_visible : ∃ tr s pre x mid y post a b v w rf rf',
    IsRun .asBuilt 2 4096 (fun _ => 0) (fun _ => .default) tr s ∧ CrashFree tr s ∧
    stepsOf tr s = pre ++ x :: (mid ++ y :: post) ∧ x.2.1.event = .executed a v rf ∧
    a.isWrite = true ∧ a.NaturallyAligned ∧ Synchronised x.2.1.tid y.2.1.tid mid ∧
    y.2.1.event = .executed b w rf' ∧ b.LoadsAt a ∧ AvoidsPlace a (pre ++ (mid ++ y :: post)) ∧
    ¬ a.SeenIn w := by
  obtain ⟨tr, s, hrun, hcheck⟩ := exists_run_of_replay .asBuilt
    (Model.init 2 4096 (fun _ => 0) (fun _ => .default))
    [({ call := .lock 0 }, []), ({ call := .schedYield }, []), ({}, []), ({}, []),
      ({ call := .store 4096 .w8 7 }, []), ({}, []), ({}, []), ({ call := .unlock 0 }, []), ({}, []),
      ({}, []), ({ call := .lock 0 }, []), ({}, []), ({}, []), ({ call := .schedYield }, []), ({}, []),
      ({}, []), ({ call := .load 4096 .w8 }, []), ({}, [])]
    (fun tr s => crashFree tr s && divided 5 (stepsOf tr s) fun pre x rest =>
      divided 11 rest fun mid y post => storesAndLoads true 0 pre x mid y post &&
        divided 5 mid fun _ r after => divided 2 after fun _ q _ => unlocksAndLocks r q)
    (by decide +kernel)
  rw [Bool.and_eq_true] at hcheck
  obtain ⟨hfree, hwhole⟩ := hcheck
  obtain ⟨pre, x, rest, hsteps, hrest⟩ := exists_of_divided hwhole
  obtain ⟨mid, y, post, rfl, hcheck⟩ := exists_of_divided hrest
  rw [Bool.and_eq_true] at hcheck
  obtain ⟨hx, hy, a, n, rf, b, rf', hstore, hwrite, haligned, hsize, hbyte, hload, hb, honly, _⟩ :=
    storesAndLoads_iff hcheck.1
  have hsync : Synchronised x.2.1.tid y.2.1.tid mid := by
    rw [hx, hy]
    exact synchronised_of_divided hcheck.2
  refine ⟨tr, s, pre, x, mid, y, post, a, b, n, 0, rf, rf', ⟨by decide, hrun⟩, crashFree_iff hfree,
    hsteps, hstore, hwrite, haligned, hsync, hload, hb, honly, ?_⟩
  intro hseen
  have hzero := hseen 0 haligned.size_pos
  rw [Nat.add_zero, hbyte] at hzero
  cases hzero

end Cxlmc
