import Cxlmc.System.StoreLists

/-!
# Loads see the newest evicted stores

Stores are filed under the word of their first byte, and a load looks at one word only. So a load by
a thread with an empty store buffer returns, byte by byte, the newest evicted store or the initial
memory where that list is the whole story (`Model.Reaches`, `Event.KeepsByte`); naturally aligned
accesses always are. Elsewhere bytes are lost (`load_not_coherent`).
-/

namespace Cxlmc

open Stateful Fill

namespace Model

/-- `b` is the byte of the newest evicted store covering `addr`, or the initial memory byte when no
evicted store covers it. -/
def HoldsByte (s : Model) (memory : Nat → Nat) (addr b : Nat) : Prop :=
  (∃ a, s.IsNewest addr a ∧ b = a.byteAt addr) ∨
    (∀ w, ∀ a ∈ s.storesOf w, ¬ a.Covers addr) ∧ b = memory addr &&& 0xff

/-- The list that a read looks at has what it needs: every evicted store with a byte in the read is
filed in it, none of its stores begins before the read and ends inside it, and what lies past the end
of the word was stored. -/
structure Reaches (s : Model) (read : ModelAction) : Prop where
  filed : ∀ w, ∀ a ∈ s.storesOf w, ∀ i, i < read.size → a.Covers (read.location + i) → w = read.word
  uncut : ∀ a ∈ s.storesOf read.word, ¬ a.Cuts read
  past : ∀ i, i < read.size → read.word + 8 ≤ read.location + i →
    ∃ a ∈ s.storesOf read.word, a.Covers (read.location + i)

end Model

section

variable {cfg : Config} {s s' s₁ : Model} {read x : ModelAction} {i : Nat}

/-! ## The list of the word -/

/-- The first store of the list that takes a slot is the newest that covers its byte, or the initial
value where none does. -/
theorem Model.Reaches.find (h : s.Reaches read) (hsorted : s.Sorted) (hi : i < read.size)
    (hfind : (s.objToWr read.word).reverse.find? (fun w => wants read w i) = some x) :
    s.IsNewest (read.location + i) x ∨
      (∀ w, ∀ a ∈ s.storesOf w, ¬ a.Covers (read.location + i)) ∧ x.type = .atomicInit ∧
        (∃ rest, s.objToWr read.word = x :: rest) ∧ read.location + i < read.word + 8 := by
  have hnewest : (s.storesOf read.word).reverse.find? (fun w => wants read w i) = some x →
      s.IsNewest (read.location + i) x := by
    intro hx
    have hmem : x ∈ s.storesOf read.word := List.mem_reverse.mp (List.mem_of_find?_eq_some hx)
    have hwants := List.find?_some hx
    refine ⟨⟨_, hmem⟩, (wants_iff_covers_of_not_cuts (h.uncut x hmem) hi).mp hwants, ?_⟩
    intro w b hb hc
    obtain rfl := h.filed w b hb i hi hc
    exact le_of_find?_reverse (hsorted _) hx b hb (wants_of_covers hi hc)
  rcases eq_or_cons_evictedStores (s.objToWr read.word) with hlist | ⟨a, htype, hlist⟩
  · left
    rw [hlist] at hfind
    exact hnewest hfind
  · rw [hlist, List.reverse_cons, List.find?_append] at hfind
    cases hstores : (s.storesOf read.word).reverse.find? fun w => wants read w i with
    | some y =>
        rw [Model.storesOf] at hstores
        rw [hstores] at hfind
        cases hfind
        exact .inl (hnewest hstores)
    | none =>
        rw [Model.storesOf] at hstores
        rw [hstores, Option.none_or] at hfind
        obtain rfl : x = a := List.mem_singleton.mp (List.mem_of_find?_eq_some hfind)
        have hnone : ∀ w, ∀ b ∈ s.storesOf w, ¬ b.Covers (read.location + i) := by
          intro w b hb hc
          obtain rfl := h.filed w b hb i hi hc
          have hnot := List.find?_eq_none.mp hstores b (List.mem_reverse.mpr hb)
          exact hnot (wants_of_covers hi hc)
        refine .inr ⟨hnone, htype, ⟨_, hlist⟩, ?_⟩
        by_contra hpast
        obtain ⟨b, hb, hc⟩ := h.past i hi (Nat.le_of_not_lt hpast)
        exact hnone _ b hb hc

/-- What `execute` resolves a load from is in the lists. -/
theorem Model.Reaches.holdsByte {memory : Nat → Nat} (h : s.Reaches read) (hsorted : s.Sorted)
    (hk : read.location + i < read.word + 8 → s.ByteKept memory read.word (read.location + i))
    (hi : i < read.size)
    (hfind : (s.objToWr read.word).reverse.find? (fun w => wants read w i) = some x) :
    s.HoldsByte memory (read.location + i) (x.byteAt (read.location + i)) := by
  rcases h.find hsorted hi hfind with hnew | ⟨hnone, htype, ⟨rest, hlist⟩, hlt⟩
  · exact .inl ⟨x, hnew, rfl⟩
  · exact .inr ⟨hnone, (hk hlt).head x rest hlist htype⟩

/-! ## Executing a load -/

/-- With an empty store buffer a fence evicts nothing. -/
theorem Goes.objToWr_of_drains {t : ThreadId} (hcfg : cfg.memPoison = false)
    (h : Goes (MemStep cfg) (Effect.Drains t) s s') (hbuf : (s.threadMemory t).storeBuffer = []) :
    s'.objToWr = s.objToWr ∧ (s'.threadMemory t).storeBuffer = [] := by
  apply h.invariant (I := fun y => y.objToWr = s.objToWr ∧ (y.threadMemory t).storeBuffer = [])
    _ ⟨rfl, hbuf⟩
  intro y e z he ⟨hlists, hempty⟩ hstep
  have hnot : e.taken = none := by
    by_contra htaken
    obtain ⟨⟨u, a⟩, hu⟩ := Option.ne_none_iff_exists'.mp htaken
    obtain ⟨rest, hrest⟩ := hstep.taken hu
    have htu : u = t := by
      cases e <;> cases hu <;> exact he
    rw [htu, hempty] at hrest
    cases hrest
  rw [hstep.objToWr hcfg, hstep.storeBuffer hcfg]
  cases e with
  | popStore _ _ => cases hnot
  | popClflush _ _ => cases hnot
  | popClflushopt _ _ => cases hnot
  | popSfence _ _ => cases hnot
  | initial _ => exact he.elim
  | push _ => exact he.elim
  | _ => exact ⟨hlists, hempty⟩

/-- The state in which a load with an empty store buffer is resolved. -/
theorem Executed.load_read {v : Nat} {rf : Slots} (hcfg : cfg.memPoison = false)
    (hload : read.isLoad = true) (hbuf : (s.threadMemory s.threadId).storeBuffer = [])
    (h : Executed cfg read s v rf s') :
    ∃ s₂ s₃, s₂.objToWr = s.objToWr ∧ (s₂.threadMemory s.threadId).storeBuffer = [] ∧
      MemStep cfg s₂ (.read read rf) s₃ ∧ s₃.Idle s' ∧ v = getReadValue read.location rf := by
  obtain ⟨s₁, s₂, s₃, hdrain, hidle, hread, hidle', hv, _⟩ := h.load_parts hload
  have hfirst : s₁.objToWr = s.objToWr ∧ (s₁.threadMemory s.threadId).storeBuffer = [] := by
    split at hdrain
    · exact Goes.objToWr_of_drains hcfg hdrain.goes hbuf
    · rw [hdrain]
      exact ⟨rfl, hbuf⟩
  refine ⟨s₂, s₃, ?_, ?_, hread, hidle', hv⟩
  · rw [← hfirst.1]
    exact congrArg Memory.objToWr hidle.memory
  · rw [hidle.memory]
    exact hfirst.2

/-- Recording an initial value evicts nothing. -/
theorem Model.prepared_storesOf (s : Model) (a : ModelAction) (w : Nat) :
    (s.prepared a).storesOf w = s.storesOf w := by
  unfold Model.prepared
  split
  · next h =>
      show evictedStores (Function.update s.objToWr a.word [s.initialValue a.word] w) =
        evictedStores (s.objToWr w)
      by_cases hw : w = a.word
      · rw [hw, Function.update_self, h.2]
        rfl
      · rw [Function.update_of_ne hw]
  · rfl

theorem Model.Reaches.of_storesOf (h : s.Reaches read) (hs : ∀ w, s'.storesOf w = s.storesOf w) :
    s'.Reaches read := by
  constructor
  · intro w a ha
    rw [hs w] at ha
    exact h.filed w a ha
  · intro a ha
    rw [hs read.word] at ha
    exact h.uncut a ha
  · intro j hj hpast
    rw [hs read.word]
    exact h.past j hj hpast

theorem Model.IsNewest.of_storesOf {addr : Nat} (h : s.IsNewest addr x)
    (hs : ∀ w, s'.storesOf w = s.storesOf w) : s'.IsNewest addr x := by
  obtain ⟨w, hw⟩ := h.evicted
  refine ⟨⟨w, ?_⟩, h.covers, ?_⟩
  · rw [hs w]
    exact hw
  · intro w' b hb
    rw [hs w'] at hb
    exact h.newest w' b hb

theorem Model.HoldsByte.of_storesOf {memory : Nat → Nat} {addr b : Nat}
    (h : s.HoldsByte memory addr b) (hs : ∀ w, s'.storesOf w = s.storesOf w) :
    s'.HoldsByte memory addr b := by
  rcases h with ⟨a, ha, hb⟩ | ⟨hnone, hb⟩
  · exact .inl ⟨a, ha.of_storesOf hs, hb⟩
  · refine .inr ⟨?_, hb⟩
    intro w a ha
    rw [hs w] at ha
    exact hnone w a ha

theorem Model.prepared_byteKept {memory : Nat → Nat} {word addr : Nat} (hcfg : cfg.memPoison = false)
    (hlo : word ≤ addr) (hhi : addr < word + 8) (ho : s.Opened) (hk : s.ByteKept memory word addr)
    (a : ModelAction) : (s.prepared a).ByteKept memory word addr := by
  have hgoes : Goes (MemStep cfg) (fun e => e = .initial a.word) s (s.prepared a) :=
    s.prepared_goes fun _ => rfl
  have hboth : (s.prepared a).Opened ∧ (s.prepared a).ByteKept memory word addr := by
    apply hgoes.invariant (I := fun y => y.Opened ∧ y.ByteKept memory word addr) _ ⟨ho, hk⟩
    rintro y e z rfl ⟨hy, hky⟩ hstep
    exact ⟨hstep.opened hcfg nofun hy, hstep.byteKept hcfg hlo hhi nofun hy hky⟩
  exact hboth.2

/-- The bytes of a read are not below its word. -/
theorem ModelAction.word_le_location (a : ModelAction) (i : Nat) : a.word ≤ a.location + i := by
  unfold word alignAddress
  omega

/-- A load was about to be executed. -/
theorem StepCase.load {v : Nat} {rf : Slots} (hplaced : s.Placed)
    (h : StepCase cfg s (.executed read v rf) s') (hload : read.isLoad = true) :
    ∃ s₁, read.tid = s.threadId ∧ 0 < read.size ∧ Executed cfg read (s.prepared read) v rf s₁ ∧
      s₁.Control s' := by
  have hholds := hplaced.holds s.threadId
  generalize hev : Event.executed read v rf = e at h
  cases h with
  | @executed b ret _ n _ t s₁ _ hctx h h' =>
      cases hev
      rw [hctx] at hholds
      have hb : s.stamp b = b := by
        rw [Model.stamp, if_neg]
        intro htype
        simp [ModelAction.isLoad, s.stamp_type, htype] at hload
      have hpos := size_pos_of_isLoad hholds hload
      rw [hb] at h hpos ⊢
      exact ⟨s₁, hholds.tid_eq.1, hpos, h, h'.toControl⟩
  | resumed hctx _ =>
      cases hev
      rw [hctx] at hholds
      have hcontrol := ModelAction.isControl_of_isSync hholds.1
      simp [ModelAction.isControl, hload] at hcontrol
  | _ => cases hev

/-- What a load by a thread with an empty store buffer reads. -/
theorem StepCase.load_holdsByte {memory : Nat → Nat} {v : Nat} {rf : Slots}
    (hcfg : cfg.memPoison = false) (hplaced : s.Placed)
    (h : StepCase cfg s (.executed read v rf) s') (hload : read.isLoad = true)
    (hcrash : s'.crashes = ∅) (hbuf : (s.threadMemory s.threadId).storeBuffer = [])
    (hreaches : s.Reaches read) (hl : s.Listed)
    (hk : read.location + i < read.word + 8 → s.ByteKept memory read.word (read.location + i))
    (hi : i < read.size) : s.HoldsByte memory (read.location + i) (byteOf v i) := by
  obtain ⟨s₁, htid, hpos, hexec, hctrl⟩ := h.load hplaced hload
  have hprepared : ((s.prepared read).threadMemory (s.prepared read).threadId).storeBuffer = [] := by
    rw [s.prepared_threadId, (s.prepared_memory read).2]
    exact hbuf
  obtain ⟨s₂, s₃, hlists, hempty, hread, hidle, rfl⟩ := hexec.load_read hcfg hload hprepared
  have hcrash₃ : s₃.crashes = ∅ := by
    rw [← hcrash, hctrl.memory, hidle.memory]
  obtain ⟨y, hfind, hbyte⟩ := byteOf_read hpos hcfg hcrash₃ (by
    cases hread with
    | read _ _ _ _ hends => exact hends) hi
  have hcands : s₂.candidates read = ((s.prepared read).objToWr read.word).reverse := by
    rw [s.prepared_threadId, ← htid] at hempty
    rw [Model.candidates, hempty, hlists]
    rfl
  rw [hcands] at hfind
  rw [hbyte]
  have hsame := s.prepared_storesOf read
  have hsorted : (s.prepared read).Sorted := by
    intro w
    rw [hsame w]
    exact hl.sorted w
  have hk₁ : read.location + i < read.word + 8 →
      (s.prepared read).ByteKept memory read.word (read.location + i) := fun hlt =>
    s.prepared_byteKept hcfg (read.word_le_location i) hlt hl.opened (hk hlt) read
  have hheld := (hreaches.of_storesOf hsame).holdsByte hsorted hk₁ hi hfind
  exact hheld.of_storesOf fun w => (hsame w).symm

end

/-! ## Naturally aligned stores -/

section

variable {cfg : Config} {s s' : Model} {read : ModelAction} {e : Event}

/-- What the action stores is naturally aligned; `pthread_create` stores a thread id of 4 bytes. -/
def ModelAction.StoresAligned (a : ModelAction) : Prop :=
  (a.isWrite = true → a.NaturallyAligned) ∧ (a.type = .pthreadCreate → a.location % 4 = 0)

instance (a : ModelAction) : Decidable a.StoresAligned := inferInstanceAs (Decidable (_ ∧ _))

/-- An action that the program asks for stores naturally aligned. -/
def Event.Aligned : Event → Prop
  | .called a => a.StoresAligned
  | _ => True

instance (e : Event) : Decidable e.Aligned := by
  cases e <;> unfold Event.Aligned <;> infer_instance

namespace Model

/-- The actions that wait to be executed store naturally aligned. -/
def ReadyAligned (s : Model) : Prop := ∀ t a ret, s.contextOf t = .ready a ret → a.StoresAligned

/-- Every store of a buffer or a list is naturally aligned. -/
structure StoresAligned (s : Model) : Prop where
  buffered : ∀ t, ∀ b ∈ (s.threadMemory t).storeBuffer, b.isWrite = true → b.NaturallyAligned
  evicted : ∀ w, ∀ a ∈ s.storesOf w, a.NaturallyAligned

theorem readyAligned_init {n cxlMapping : Nat} {memory : Nat → Nat}
    {mutexType : MutexId → MutexType} : (Model.init n cxlMapping memory mutexType).ReadyAligned := by
  intro t a ret hctx
  cases hctx

theorem storesAligned_init {n cxlMapping : Nat} {memory : Nat → Nat}
    {mutexType : MutexId → MutexType} : (Model.init n cxlMapping memory mutexType).StoresAligned := by
  constructor
  · intro t b hb
    cases hb
  · intro w a ha
    cases ha

end Model

theorem StepCase.readyAligned (hcfg : cfg.memPoison = false) (hplaced : s.Placed)
    (h : StepCase cfg s e s') (haligned : e.Aligned) (hs : s.ReadyAligned) : s'.ReadyAligned := by
  intro t a ret hctx
  rcases h.ready hcfg hplaced hctx with hctx | ⟨_, _, rfl⟩
  · exact hs t a ret hctx
  · exact haligned

theorem MemStep.storesAligned {ef : Effect} (hcfg : cfg.memPoison = false)
    (h : MemStep cfg s ef s') (hpush : ∀ b, ef = .push b → b.isWrite = true → b.NaturallyAligned)
    (hs : s.StoresAligned) : s'.StoresAligned := by
  constructor
  · intro t b hb hw
    rcases h.mem_storeBuffer hcfg hb with hb | ⟨he, _⟩
    · exact hs.buffered t b hb hw
    · exact hpush b he hw
  · intro w a ha
    rcases h.mem_storesOf hcfg ha with ha | ⟨t, b, rest, rfl, hbuf, _, rfl⟩
    · exact hs.evicted w a ha
    · have hw : b.isWrite = true := by
        cases h with
        | popStore _ _ _ _ hw => exact hw
      have hb : b ∈ (s.threadMemory t).storeBuffer := by
        rw [hbuf]
        exact List.mem_cons_self
      exact hs.buffered t b hb hw

theorem Model.stamp_storesAligned {a : ModelAction} (s : Model) (h : a.StoresAligned) :
    (s.stamp a).StoresAligned := by
  unfold Model.stamp
  split
  · exact h
  · exact h

/-- What is executed was waiting to be. -/
theorem StepCase.executed_storesAligned (hplaced : s.Placed) (h : StepCase cfg s e s')
    (hs : s.ReadyAligned) {a : ModelAction} {v : Nat} {rf : Slots} (he : e = .executed a v rf) :
    a.StoresAligned := by
  have hholds := hplaced.holds s.threadId
  cases h with
  | executed hctx _ _ =>
      cases he
      exact s.stamp_storesAligned (hs _ _ _ hctx)
  | resumed hctx _ =>
      cases he
      rw [hctx] at hholds
      refine ⟨?_, ?_⟩
      · intro hw
        have hacc := not_isAccess_of_isSync hholds.1
        rw [hw, Bool.or_true] at hacc
        cases hacc
      · intro htype
        have hsync := hholds.1
        simp [ModelAction.isSync, htype] at hsync
  | _ => cases he

/-- Steps that only push naturally aligned stores keep every store so. -/
theorem StepCase.storesAligned (hcfg : cfg.memPoison = false) (hplaced : s.Placed)
    (h : StepCase cfg s e s') (hready : s.ReadyAligned) (hs : s.StoresAligned) :
    s'.StoresAligned := by
  have hexecuted : ∀ a v rf, e = .executed a v rf → a.StoresAligned :=
    fun _ _ _ he => h.executed_storesAligned hplaced hready he
  apply (h.goes hplaced).invariant (I := Model.StoresAligned) _ hs
  intro x ef y hallowed hx hstep
  apply hstep.storesAligned hcfg _ hx
  rintro b rfl hw
  cases hallowed with
  | executes hexec =>
      have haligned := hexecuted _ _ _ rfl
      cases hexec with
      | push _ => exact haligned.1 hw
      | drains _ hfalse => exact hfalse.elim
      | createPush htype _ => exact ⟨.inr (.inr (.inl rfl)), haligned.2 htype⟩
  | pops hfalse => exact hfalse.elim
  | exitPush hctx _ _ => exact (hready _ _ _ hctx).1 hw
  | exitDrains _ _ _ hfalse => exact hfalse.elim
  | exitPops _ _ hfalse => exact hfalse.elim
  | exitShutdown _ hfalse =>
      obtain ⟨_, _, _, hfalse⟩ := hfalse
      exact hfalse.elim

/-- A naturally aligned read is all in the list of its word, if the stores are. -/
theorem Model.StoresAligned.reaches (hs : s.StoresAligned) (hr : s.Recorded)
    (hread : read.NaturallyAligned) : s.Reaches read := by
  have hin := hread.inWord
  constructor
  · intro w a ha i hi hc
    obtain ⟨_, hword⟩ := hr.listed w a (mem_of_mem_evictedStores ha)
    have hcovered : read.Covers (read.location + i) := ⟨Nat.le_add_right _ _, by omega⟩
    rw [← hword, ← (hs.evicted w a ha).alignAddress_eq hc, hread.alignAddress_eq hcovered]
  · intro a ha
    exact (hs.evicted _ a ha).not_cuts hread
  · intro i hi hpast
    omega

theorem StepCase.aligned_keepsByte {word addr : Nat} (hplaced : s.Placed) (h : StepCase cfg s e s')
    (hready : s.ReadyAligned) (haddr : alignAddress addr = word)
    (hcreate : ∀ a v rf, e = .executed a v rf → a.type ≠ .pthreadCreate) : e.KeepsByte s word addr := by
  cases e with
  | executed a v rf =>
      refine ⟨?_, fun htype => absurd htype (hcreate a v rf rfl)⟩
      intro hw hcovers
      rw [← haddr, ((h.executed_storesAligned hplaced hready rfl).1 hw).alignAddress_eq hcovers]
  | _ => trivial

end

/-! ## Runs -/

section

variable {cfg : Config} {n cxlMapping : Nat} {memory : Nat → Nat} {mutexType : MutexId → MutexType}
  {tr : List (Model × Label)} {s' : Model}

/-- In a run without a crash, a load by a thread with an empty store buffer returns the newest evicted
stores byte by byte, if its list has what it needs and the program keeps the byte. -/
theorem load_coherent (hcfg : cfg.memPoison = false)
    (hrun : IsRun cfg n cxlMapping memory mutexType tr s') (hfree : CrashFree tr s')
    {x : Model × Label × Model} (hx : x ∈ stepsOf tr s') {a : ModelAction} {v : Nat} {rf : Slots}
    (hev : x.2.1.event = .executed a v rf) (hload : a.isLoad = true)
    (hbuf : (x.1.threadMemory x.2.1.tid).storeBuffer = []) (hreaches : x.1.Reaches a) {i : Nat}
    (hkeeps : a.location + i < a.word + 8 →
      ∀ y ∈ stepsOf tr s', y.2.1.event.KeepsByte y.1 a.word (a.location + i))
    (hi : i < a.size) : x.1.HoldsByte memory (a.location + i) (byteOf v i) := by
  obtain ⟨hplaced, hl, htid, hcase⟩ := (hrun.listed hcfg).1 x hx
  rw [hev] at hcase
  rw [htid] at hbuf
  refine hcase.load_holdsByte hcfg hplaced hload (hfree x hx) hbuf hreaches hl ?_ hi
  exact fun hlt => (hrun.byteKept hcfg (a.word_le_location i) hlt (hkeeps hlt)).1 x hx

/-- The stores of a run are naturally aligned if those that it calls are. -/
theorem IsRun.storesAligned (hcfg : cfg.memPoison = false)
    (hrun : IsRun cfg n cxlMapping memory mutexType tr s')
    (haligned : ∀ x ∈ stepsOf tr s', x.2.1.event.Aligned) :
    (∀ x ∈ stepsOf tr s', x.1.ReadyAligned ∧ x.1.StoresAligned) ∧ s'.StoresAligned := by
  obtain ⟨hall, _, _, hlast⟩ := hrun.invariant hcfg (P := fun s => s.ReadyAligned ∧ s.StoresAligned)
    ⟨Model.readyAligned_init, Model.storesAligned_init⟩ (by
    intro s l s₁ hmem hplaced ⟨hready, hs⟩ _ hcase
    exact ⟨hcase.readyAligned hcfg hplaced (haligned _ hmem) hready,
      hcase.storesAligned hcfg hplaced hready hs⟩)
  exact ⟨fun x hx => (hall x hx).2.1, hlast⟩

end

/-! ## Runs with aligned and with unaligned stores -/

/-- The step is a load of at least one byte by a thread with an empty store buffer. -/
def isBareLoad (x : Model × Label × Model) : Bool :=
  match x.2.1.event with
  | .executed a _ _ =>
      a.isLoad && decide a.NaturallyAligned && (x.1.threadMemory x.2.1.tid).storeBuffer.isEmpty
  | _ => false

/-- No thread is created. -/
def Event.createsNone : Event → Bool
  | .executed a _ _ => a.type ≠ .pthreadCreate
  | _ => true

/-- Without new threads an aligned program keeps the bytes of all words. -/
theorem IsRun.keepsByte {word addr : Nat} (hcfg : cfg.memPoison = false)
    (hrun : IsRun cfg n cxlMapping memory mutexType tr s') (haddr : alignAddress addr = word)
    (haligned : ∀ x ∈ stepsOf tr s', x.2.1.event.Aligned)
    (hnone : ∀ x ∈ stepsOf tr s', x.2.1.event.createsNone = true) :
    ∀ x ∈ stepsOf tr s', x.2.1.event.KeepsByte x.1 word addr := by
  intro x hx
  obtain ⟨hplaced, _, _, hstep⟩ := (hrun.listed hcfg).1 x hx
  refine hstep.aligned_keepsByte hplaced ((hrun.storesAligned hcfg haligned).1 x hx).1 haddr ?_
  intro a v rf hevent htype
  have hcreates := hnone x hx
  rw [hevent] at hcreates
  simp [Event.createsNone, htype] at hcreates

/-- `load_coherent` for a load of the upper half of a word that was stored before. -/
theorem load_coherent_aligned : ∃ tr s x a v rf,
    IsRun .asBuilt 1 4096 (fun _ => 0) (fun _ => .default) tr s ∧ x ∈ stepsOf tr s ∧
    x.2.1.event = .executed a v rf ∧ a.isLoad = true ∧ a.size = 4 ∧ a.location = 4100 ∧
    v = 0x01020304 ∧ ∀ i, i < a.size → x.1.HoldsByte (fun _ => 0) (a.location + i) (byteOf v i) := by
  obtain ⟨tr, s, hrun, hcheck⟩ := exists_run_of_replay .asBuilt
    (Model.init 1 4096 (fun _ => 0) (fun _ => .default))
    [({ call := .store 4096 .w64 0x0102030405060708 }, []), ({}, []), ({}, []),
      ({ call := .mfence 4096 }, []), ({}, []), ({}, []), ({ call := .load 4100 .w32 }, []), ({}, [])]
    (fun tr s => crashFree tr s &&
      (stepsOf tr s).all (fun x => decide x.2.1.event.Aligned && x.2.1.event.createsNone) &&
      (stepsOf tr s).any fun x => isBareLoad x &&
        match x.2.1.event with
        | .executed a v _ => decide (a.size = 4 ∧ a.location = 4100 ∧ v = 0x01020304)
        | _ => false)
    (by decide +kernel)
  simp only [Bool.and_eq_true, List.all_eq_true, List.any_eq_true, decide_eq_true_eq] at hcheck
  obtain ⟨⟨hfree, hall⟩, x, hx, hload, hcase⟩ := hcheck
  have hrun' : IsRun .asBuilt 1 4096 (fun _ => 0) (fun _ => .default) tr s := ⟨by decide, hrun⟩
  have hfree := crashFree_iff hfree
  unfold isBareLoad at hload
  split at hload
  · next a v rf hev =>
      rw [hev] at hcase
      simp only [Bool.and_eq_true, decide_eq_true_eq, List.isEmpty_iff] at hload hcase
      obtain ⟨⟨hload, haligned⟩, hbuf⟩ := hload
      obtain ⟨hsize, hloc, hv⟩ := hcase
      refine ⟨tr, s, x, a, v, rf, hrun', hx, hev, hload, hsize, hloc, hv, ?_⟩
      intro i hi
      have hstores := (hrun'.storesAligned rfl fun y hy => (hall y hy).1).1
      have hlisted := (hrun'.listed rfl).1
      have hword : alignAddress (a.location + i) = a.word :=
        haligned.alignAddress_eq ⟨Nat.le_add_right _ _, by omega⟩
      exact load_coherent rfl hrun' hfree hx hev hload hbuf
        ((hstores x hx).2.reaches (hlisted x hx).2.1.recorded haligned)
        (fun _ => hrun'.keepsByte rfl hword (fun y hy => (hall y hy).1) fun y hy => (hall y hy).2) hi
  · cases hload

/-- The step loads 0 from the byte at 4104, which the newest store of 4096 covers with a 2. -/
def loadsPastStore (x : Model × Label × Model) : Bool :=
  match x.2.1.event, x.1.objToWr 4096 with
  | .executed a v _, [_, b] =>
      decide (a.location = 4104 ∧ v = 0 ∧ b.Covers 4104 ∧ b.byteAt 4104 = 2 ∧
        b ∈ x.1.storesOf 4096 ∧ b.tick + 1 = x.1.ticks)
  | _, _ => false

/-- A store across the end of a word is not seen by a load of the next word. -/
theorem crossing_not_seen (gpf : Bool) : ∃ tr s x a v rf c,
    IsRun ⟨true, gpf, false⟩ 1 4096 (fun _ => 0) (fun _ => .default) tr s ∧ CrashFree tr s ∧
    x ∈ stepsOf tr s ∧ x.2.1.event = .executed a v rf ∧ a.isLoad = true ∧ a.NaturallyAligned ∧
    (x.1.threadMemory x.2.1.tid).storeBuffer = [] ∧ x.1.ClocksUnique ∧
    x.1.IsNewest a.location c ∧ byteOf v 0 ≠ c.byteAt a.location := by
  obtain ⟨tr, s, hrun, hcheck⟩ := exists_run_of_replay ⟨true, gpf, false⟩
    (Model.init 1 4096 (fun _ => 0) (fun _ => .default))
    [({ call := .load 4104 .w8 }, []), ({}, []), ({}, []),
      ({ call := .store 4102 .w32 0x01020304 }, []), ({}, []), ({}, []),
      ({ call := .mfence 4096 }, []), ({}, []), ({}, []), ({ call := .load 4104 .w8 }, []), ({}, [])]
    (fun tr s => crashFree tr s &&
      (stepsOf tr s).any fun x => isBareLoad x && loadsPastStore x)
    (by cases gpf <;> decide +kernel)
  simp only [Bool.and_eq_true, List.any_eq_true] at hcheck
  obtain ⟨hfree, x, hx, hload, hcase⟩ := hcheck
  have hrun' : IsRun ⟨true, gpf, false⟩ 1 4096 (fun _ => 0) (fun _ => .default) tr s :=
    ⟨by decide, hrun⟩
  unfold isBareLoad at hload
  split at hload
  · next a v rf hev =>
      unfold loadsPastStore at hcase
      rw [hev] at hcase
      split at hcase
      · next a' v' rf' b c hevent hlist =>
          cases hevent
          simp only [Bool.and_eq_true, decide_eq_true_eq, List.isEmpty_iff] at hload hcase
          obtain ⟨⟨hload, haligned⟩, hbuf⟩ := hload
          obtain ⟨hloc, hv, hcovers, hbyte, hmem, hseq⟩ := hcase
          have hlisted := ((hrun'.listed rfl).1 x hx).2.1
          refine ⟨tr, s, x, a, v, rf, c, hrun', crashFree_iff hfree, hx, hev, hload, haligned, hbuf,
            hlisted.clocksUnique, ?_, ?_⟩
          · rw [hloc]
            refine ⟨⟨4096, hmem⟩, hcovers, ?_⟩
            intro w d hd _
            have hlt := hlisted.recorded.clock w d hd
            omega
          · rw [hloc, hv, hbyte]
            decide
      · cases hcase
  · cases hload

/-- A load of one byte of such a store. -/
theorem load_not_coherent : ∃ tr s x a v rf,
    IsRun .asBuilt 1 4096 (fun _ => 0) (fun _ => .default) tr s ∧ CrashFree tr s ∧
    x ∈ stepsOf tr s ∧ x.2.1.event = .executed a v rf ∧ a.isLoad = true ∧
    (x.1.threadMemory x.2.1.tid).storeBuffer = [] ∧ 0 < a.size ∧
    ¬ x.1.HoldsByte (fun _ => 0) a.location (byteOf v 0) := by
  obtain ⟨tr, s, x, a, v, rf, c, hrun, hfree, hx, hev, hload, haligned, hbuf, hunique, hnew, hne⟩ :=
    crossing_not_seen false
  refine ⟨tr, s, x, a, v, rf, hrun, hfree, hx, hev, hload, hbuf, haligned.size_pos, ?_⟩
  intro h
  rcases h with ⟨d, hd, hbyte⟩ | ⟨hnone, _⟩
  · rw [hd.unique hunique hnew] at hbyte
    exact hne hbyte
  · obtain ⟨w, hw⟩ := hnew.evicted
    exact hnone w c hw hnew.covers

end Cxlmc
