import Cxlmc.System.ByteCoherence

/-!
# Loads under x86-TSO

A load observes the newest store in the store buffer of its thread that covers the byte, and the
evicted stores where there is none (`Model.TsoByte`). `local_bypassing` looks at the entries of one
kind only: what is left of the law is `load_tso`, and a thread that does not read its own store is
`load_not_tso`.
-/

namespace Cxlmc

open Stateful Fill

namespace Model

/-- The newest store in the store buffer of a thread that covers the byte at `addr`. -/
def newestBuffered (s : Model) (t : ThreadId) (addr : Nat) : Option ModelAction :=
  (s.threadMemory t).storeBuffer.reverse.find? fun a => a.isWrite && decide (a.Covers addr)

/-- `b` is what thread `t` observes at `addr` under x86-TSO: the byte of the newest store in its own
buffer that covers it, and where there is none that of the newest evicted store or of the initial
memory. -/
def TsoByte (s : Model) (memory : Nat → Nat) (t : ThreadId) (addr b : Nat) : Prop :=
  (∃ a, s.newestBuffered t addr = some a ∧ b = a.byteAt addr) ∨
    s.newestBuffered t addr = none ∧ s.HoldsByte memory addr b

/-- The store buffer of the reader has what the load needs. `local_bypassing` looks at the
`NONATOMIC_STORE` entries only, so the newest store that covers a byte is one of them; an `ATOMIC_RMWR`
evicts the whole buffer first, so its stores are filed in the list of the word. None of the stores that
are looked at begins before the load and ends inside it. -/
structure SeesOwn (s : Model) (read : ModelAction) : Prop where
  kind : read.type ≠ .atomicRmwr → ∀ i, i < read.size → ∀ b,
    s.newestBuffered read.tid (read.location + i) = some b → b.type = .nonatomicStore
  filed : read.type = .atomicRmwr → ∀ b ∈ (s.threadMemory read.tid).storeBuffer,
    b.isWrite = true → ∀ i, i < read.size → b.Covers (read.location + i) → b.word = read.word
  uncut : ∀ b ∈ (s.threadMemory read.tid).storeBuffer,
    b.type = .nonatomicStore ∨ read.type = .atomicRmwr ∧ b.isWrite = true → ¬ b.Cuts read

end Model

section

variable {cfg : Config} {s s' : Model} {read x : ModelAction} {e : Effect} {t : ThreadId} {i : Nat}

theorem isWrite_of_nonatomicStore {b : ModelAction} (h : b.type = .nonatomicStore) :
    b.isWrite = true := by
  simp [ModelAction.isWrite, h]

theorem Model.newestBuffered_of_storeBuffer {addr : Nat}
    (h : (s'.threadMemory t).storeBuffer = (s.threadMemory t).storeBuffer) :
    s'.newestBuffered t addr = s.newestBuffered t addr := by
  unfold Model.newestBuffered
  rw [h]

theorem Model.newestBuffered_of_nil {addr : Nat} (h : (s.threadMemory t).storeBuffer = []) :
    s.newestBuffered t addr = none := by
  unfold Model.newestBuffered
  rw [h]
  rfl

/-! ## The bypass -/

/-- Where the newest store of the buffer is a `NONATOMIC_STORE`, the bypass takes the slot for it. -/
theorem Model.SeesOwn.find_some (h : s.SeesOwn read) (hi : i < read.size)
    (hb : s.newestBuffered read.tid (read.location + i) = some x) (hx : x.type = .nonatomicStore) :
    ((s.threadMemory read.tid).storeBuffer.reverse.filter fun w => w.type = .nonatomicStore).find?
      (fun w => wants read w i) = some x := by
  obtain ⟨hcond, newer, older, hbuf, hnewer⟩ := List.find?_eq_some_iff_append.mp hb
  have hcovers : x.Covers (read.location + i) := by
    simp only [Bool.and_eq_true, decide_eq_true_eq] at hcond
    exact hcond.2
  rw [List.find?_filter, List.find?_eq_some_iff_append]
  refine ⟨?_, newer, older, hbuf, ?_⟩
  · simp [hx, wants_of_covers hi hcovers]
  · intro w hw
    have hmem : w ∈ (s.threadMemory read.tid).storeBuffer := by
      rw [← List.mem_reverse, hbuf]
      exact List.mem_append_left _ hw
    have hnot := hnewer w hw
    by_cases htype : w.type = .nonatomicStore
    · have hwants := wants_iff_covers_of_not_cuts (h.uncut w hmem (.inl htype)) hi
      simp only [isWrite_of_nonatomicStore htype, Bool.true_and, Bool.not_eq_true',
        decide_eq_false_iff_not] at hnot
      simpa [htype, hwants] using hnot
    · simp [htype]

/-- Where no store of the buffer covers the byte, the bypass leaves the slot free. -/
theorem Model.SeesOwn.find_none (h : s.SeesOwn read) (hi : i < read.size)
    (hb : s.newestBuffered read.tid (read.location + i) = none) :
    ((s.threadMemory read.tid).storeBuffer.reverse.filter fun w => w.type = .nonatomicStore).find?
      (fun w => wants read w i) = none := by
  rw [List.find?_eq_none]
  intro w hw hwants
  obtain ⟨hw, htype⟩ := List.mem_filter.mp hw
  have htype := of_decide_eq_true htype
  have hcovers := (wants_iff_covers_of_not_cuts
    (h.uncut w (List.mem_reverse.mp hw) (.inl htype)) hi).mp hwants
  have hnot := List.find?_eq_none.mp hb w hw
  simp [isWrite_of_nonatomicStore htype, hcovers] at hnot

/-! ## Emptying the buffer -/

/-- An eviction makes the store the newest that covers its bytes. -/
theorem MemStep.holdsByte_of_popStore {memory : Nat → Nat} {addr b : Nat} {u : ThreadId}
    {c : ModelAction} (hcfg : cfg.memPoison = false) (h : MemStep cfg s (.popStore u c) s')
    (hr : s.Recorded) (ho : s.Opened) (hb : s'.HoldsByte memory addr b) :
    c.Covers addr ∧ b = c.byteAt addr ∨ ¬ c.Covers addr ∧ s.HoldsByte memory addr b := by
  have hstores := h.storesOf hcfg ho
  have hold : ∀ {w a}, a ∈ s.storesOf w → a ∈ s'.storesOf w := by
    intro w a ha
    rw [hstores w, Effect.storesOf]
    split
    · exact List.mem_append_left _ ha
    · exact ha
  have hnew : ({ c with tick := s.ticks } : ModelAction) ∈ s'.storesOf c.word := by
    rw [hstores, Effect.storesOf, if_pos rfl]
    exact List.mem_append_right _ (List.mem_singleton_self _)
  have hcase : ∀ {w a}, a ∈ s'.storesOf w →
      a ∈ s.storesOf w ∨ a = { c with tick := s.ticks } := by
    intro w a ha
    rw [hstores w, Effect.storesOf] at ha
    split at ha
    · exact (List.mem_append.mp ha).imp id List.mem_singleton.mp
    · exact .inl ha
  by_cases hcovers : c.Covers addr
  · refine .inl ⟨hcovers, ?_⟩
    rcases hb with ⟨a, ha, hbyte⟩ | ⟨hnone, _⟩
    · obtain ⟨w, hw⟩ := ha.evicted
      rcases hcase hw with hw | rfl
      · -- an older store is not the newest any more
        have hle := ha.newest _ _ hnew hcovers
        exact absurd hle (Nat.not_le_of_lt (hr.clock w a hw))
      · exact hbyte
    · exact absurd hcovers fun h => hnone _ _ hnew h
  · refine .inr ⟨hcovers, ?_⟩
    rcases hb with ⟨a, ha, hbyte⟩ | ⟨hnone, hbyte⟩
    · refine .inl ⟨a, ⟨?_, ha.covers, fun w b hb => ha.newest w b (hold hb)⟩, hbyte⟩
      obtain ⟨w, hw⟩ := ha.evicted
      rcases hcase hw with hw | rfl
      · exact ⟨w, hw⟩
      · exact absurd ha.covers hcovers
    · exact .inr ⟨fun w a ha => hnone w a (hold ha), hbyte⟩

/-- The newest store of a buffer is the first entry where no later one covers the byte. -/
theorem Model.newestBuffered_cons {addr : Nat} {c : ModelAction} {rest : List ModelAction}
    (hbuf : (s.threadMemory t).storeBuffer = c :: rest)
    (hrest : (s'.threadMemory t).storeBuffer = rest) :
    s.newestBuffered t addr = (s'.newestBuffered t addr).or
      (if c.isWrite = true ∧ c.Covers addr then some c else none) := by
  unfold Model.newestBuffered
  rw [hbuf, hrest, List.reverse_cons, List.find?_append]
  simp

/-- What a thread observes does not change when its own stores are evicted. -/
theorem MemStep.tsoByte_of_drains {memory : Nat → Nat} {addr b : Nat} (hcfg : cfg.memPoison = false)
    (h : MemStep cfg s e s') (he : e.Drains t) (hr : s.Recorded) (ho : s.Opened)
    (hb : s'.TsoByte memory t addr b) : s.TsoByte memory t addr b := by
  have hbuf := h.storeBuffer hcfg t
  have hstores := h.storesOf hcfg ho
  have hsame : (∀ w, s'.storesOf w = s.storesOf w) →
      s'.newestBuffered t addr = s.newestBuffered t addr → s.TsoByte memory t addr b := by
    intro hst hnewest
    rw [Model.TsoByte, hnewest] at hb
    exact hb.imp id fun ⟨hnone, hb⟩ => ⟨hnone, hb.of_storesOf fun w => (hst w).symm⟩
  have hflush : ∀ {c}, e.taken = some (t, c) → c.isWrite = false →
      (∀ w, s'.storesOf w = s.storesOf w) → s.TsoByte memory t addr b := by
    intro c htaken hc hst
    apply hsame hst
    rw [Model.newestBuffered_cons (h.storeBuffer_taken hcfg htaken) rfl, hc]
    simp
  cases e with
  | popStore u c =>
      obtain rfl : u = t := he
      have hw : c.isWrite = true := by
        cases h with
        | popStore _ _ _ _ hw => exact hw
      rw [Model.TsoByte, Model.newestBuffered_cons (h.storeBuffer_taken hcfg rfl) rfl]
      rcases hb with ⟨a, ha, hbyte⟩ | ⟨hnone, hb⟩
      · rw [ha]
        exact .inl ⟨a, rfl, hbyte⟩
      · rw [hnone, Option.none_or]
        rcases h.holdsByte_of_popStore hcfg hr ho hb with ⟨hcovers, hbyte⟩ | ⟨hcovers, hb⟩
        · exact .inl ⟨c, if_pos ⟨hw, hcovers⟩, hbyte⟩
        · exact .inr ⟨if_neg fun h => hcovers h.2, hb⟩
  | popClflush u c =>
      obtain rfl : u = t := he
      cases h with
      | popClflush _ _ _ _ htype => exact hflush rfl (by simp [ModelAction.isWrite, htype]) hstores
  | popClflushopt u c =>
      obtain rfl : u = t := he
      cases h with
      | popClflushopt _ _ _ _ htype =>
          exact hflush rfl (by simp [ModelAction.isWrite, htype]) hstores
  | popSfence u c =>
      obtain rfl : u = t := he
      cases h with
      | popSfence _ _ _ _ htype => exact hflush rfl (by simp [ModelAction.isWrite, htype]) hstores
  | initial _ => exact he.elim
  | push _ => exact he.elim
  | _ => exact hsame hstores (Model.newestBuffered_of_storeBuffer hbuf)

/-- The lists and the buffer of the reader have what an `ATOMIC_RMWR` needs. -/
structure Model.FilesOwn (s : Model) (read : ModelAction) : Prop where
  evictedFiled : ∀ w, ∀ a ∈ s.storesOf w, ∀ i, i < read.size → a.Covers (read.location + i) →
    w = read.word
  evictedUncut : ∀ a ∈ s.storesOf read.word, ¬ a.Cuts read
  filed : ∀ b ∈ (s.threadMemory read.tid).storeBuffer, b.isWrite = true → ∀ i, i < read.size →
    b.Covers (read.location + i) → b.word = read.word
  uncut : ∀ b ∈ (s.threadMemory read.tid).storeBuffer, b.isWrite = true → ¬ b.Cuts read
  past : ∀ i, i < read.size → read.word + 8 ≤ read.location + i →
    ∃ a ∈ s.storesOf read.word, a.Covers (read.location + i)

theorem Model.FilesOwn.reaches (h : s.FilesOwn read) : s.Reaches read :=
  ⟨h.evictedFiled, h.evictedUncut, h.past⟩

theorem MemStep.filesOwn (hcfg : cfg.memPoison = false) (h : MemStep cfg s e s')
    (he : e.Drains read.tid) (ho : s.Opened) (hf : s.FilesOwn read) : s'.FilesOwn read := by
  have hbuf : ∀ b ∈ (s'.threadMemory read.tid).storeBuffer,
      b ∈ (s.threadMemory read.tid).storeBuffer := by
    intro b hb
    rcases h.mem_storeBuffer hcfg hb with hb | ⟨rfl, _⟩
    · exact hb
    · exact he.elim
  have hcase : ∀ {w a}, a ∈ s'.storesOf w → a ∈ s.storesOf w ∨
      ∃ b ∈ (s.threadMemory read.tid).storeBuffer, b.isWrite = true ∧ w = b.word ∧
        a = { b with tick := s.ticks } := by
    intro w a ha
    rcases h.mem_storesOf hcfg ha with ha | ⟨u, b, rest, rfl, hrest, hw, hab⟩
    · exact .inl ha
    · obtain rfl : u = read.tid := he
      refine .inr ⟨b, by rw [hrest]; exact List.mem_cons_self, ?_, hw, hab⟩
      cases h with
      | popStore _ _ _ _ hwrite => exact hwrite
  refine ⟨?_, ?_, fun b hb => hf.filed b (hbuf b hb), fun b hb => hf.uncut b (hbuf b hb), ?_⟩
  · intro w a ha i hi hc
    rcases hcase ha with ha | ⟨b, hb, hw, rfl, rfl⟩
    · exact hf.evictedFiled w a ha i hi hc
    · exact hf.filed b hb hw i hi hc
  · intro a ha
    rcases hcase ha with ha | ⟨b, hb, hw, _, rfl⟩
    · exact hf.evictedUncut a ha
    · exact hf.uncut b hb hw
  · intro j hj hpast
    obtain ⟨a, ha, hc⟩ := hf.past j hj hpast
    refine ⟨a, ?_, hc⟩
    rw [h.storesOf hcfg ho]
    cases e with
    | popStore _ c =>
        rw [Effect.storesOf]
        split
        · exact List.mem_append_left _ ha
        · exact ha
    | _ => exact ha

/-- The whole buffer is evicted before an `ATOMIC_RMWR` reads. -/
theorem Drained.tso {memory : Nat → Nat} (hcfg : cfg.memPoison = false)
    (h : Drained cfg read.tid s s') (hr : s.Recorded) (ho : s.Opened) (hs : s.Sorted)
    (hf : s.FilesOwn read)
    (hk : read.location + i < read.word + 8 → s.ByteKept memory read.word (read.location + i)) :
    s'.Reaches read ∧ s'.Sorted ∧
      (read.location + i < read.word + 8 → s'.ByteKept memory read.word (read.location + i)) ∧
      ∀ addr b, s'.TsoByte memory read.tid addr b → s.TsoByte memory read.tid addr b := by
  have hall : (s'.Recorded ∧ s'.Opened ∧ s'.FilesOwn read ∧
      (read.location + i < read.word + 8 → s'.ByteKept memory read.word (read.location + i))) ∧
      ∀ addr b, s'.TsoByte memory read.tid addr b → s.TsoByte memory read.tid addr b := by
    apply h.goes.invariant (I := fun x =>
      (x.Recorded ∧ x.Opened ∧ x.FilesOwn read ∧
        (read.location + i < read.word + 8 → x.ByteKept memory read.word (read.location + i))) ∧
        ∀ addr b, x.TsoByte memory read.tid addr b → s.TsoByte memory read.tid addr b) _
      ⟨⟨hr, ho, hf, hk⟩, fun _ _ => id⟩
    rintro x e y he ⟨⟨hrx, hox, hfx, hkx⟩, hback⟩ hstep
    have hpush : ∀ b, e = .push b → b.type = .atomicInit → x.objToWr b.word ≠ [] := by
      rintro b rfl
      exact he.elim
    have hwrite : ∀ loc size, e = .write loc size → loc ≤ read.location + i →
        read.location + i < loc + size → x.objToWr read.word ≠ [] := by
      rintro loc size rfl
      exact he.elim
    refine ⟨⟨hstep.recorded hcfg hrx, hstep.opened hcfg hpush hox, hstep.filesOwn hcfg he hox hfx,
      fun hlt => hstep.byteKept hcfg (read.word_le_location i) hlt hwrite hox (hkx hlt)⟩, ?_⟩
    intro addr b hb
    exact hback addr b (hstep.tsoByte_of_drains hcfg he hrx hox hb)
  obtain ⟨⟨_, _, hfiles, hkept⟩, hback⟩ := hall
  exact ⟨hfiles.reaches, Goes.sorted hcfg h.goes hr hs, hkept, hback⟩

/-! ## Executing a load -/

/-- What a read observes of the buffer and the lists. -/
theorem Model.Idle.read_tso {memory : Nat → Nat} {rf : Slots} {s₁ : Model}
    (hidle : s.Idle s₁) (hcfg : cfg.memPoison = false) (h : MemStep cfg s₁ (.read read rf) s')
    (hcrash : s'.crashes = ∅) (hown : s.SeesOwn read)
    (hkind : ∀ b, s.newestBuffered read.tid (read.location + i) = some b → b.type = .nonatomicStore)
    (hreaches : s.Reaches read) (hs : s.Sorted)
    (hk : read.location + i < read.word + 8 → s.ByteKept memory read.word (read.location + i))
    (hi : i < read.size) :
    s.TsoByte memory read.tid (read.location + i) (byteOf (getReadValue read.location rf) i) := by
  have hcands : s₁.candidates read = s.candidates read := by
    unfold Model.candidates
    rw [hidle.memory]
  cases h with
  | read _ _ _ hpos hends =>
      obtain ⟨y, hfind, hbyte⟩ := byteOf_read hpos hcfg hcrash hends hi
      rw [hbyte]
      rw [hcands, Model.candidates, List.find?_append] at hfind
      cases hnewest : s.newestBuffered read.tid (read.location + i) with
      | some b =>
          rw [hown.find_some hi hnewest (hkind b hnewest), Option.some_or] at hfind
          rw [← Option.some.inj hfind]
          exact .inl ⟨b, hnewest, rfl⟩
      | none =>
          rw [hown.find_none hi hnewest, Option.none_or] at hfind
          exact .inr ⟨hnewest, hreaches.holdsByte hs hk hi hfind⟩

theorem Model.prepared_tsoByte {memory : Nat → Nat} {addr b : Nat} (s : Model) (a : ModelAction)
    (h : (s.prepared a).TsoByte memory t addr b) : s.TsoByte memory t addr b := by
  have hbuf : ((s.prepared a).threadMemory t).storeBuffer = (s.threadMemory t).storeBuffer := by
    rw [(s.prepared_memory a).2]
  rw [Model.TsoByte, Model.newestBuffered_of_storeBuffer hbuf] at h
  exact h.imp id fun ⟨hnone, hb⟩ => ⟨hnone, hb.of_storesOf fun w => (s.prepared_storesOf a w).symm⟩

/-- What a load observes. -/
theorem StepCase.load_tsoByte {memory : Nat → Nat} {v : Nat} {rf : Slots} (hcfg : cfg.memPoison = false)
    (hplaced : s.Placed) (h : StepCase cfg s (.executed read v rf) s') (hload : read.isLoad = true)
    (hcrash : s'.crashes = ∅) (hown : s.SeesOwn read) (hreaches : s.Reaches read) (hl : s.Listed)
    (hk : read.location + i < read.word + 8 → s.ByteKept memory read.word (read.location + i))
    (hi : i < read.size) :
    s.TsoByte memory s.threadId (read.location + i) (byteOf v i) := by
  obtain ⟨s₁, htid, hpos, hexec, hctrl⟩ := h.load hplaced hload
  obtain ⟨s₂, s₃, s₄, hdrain, hidle, hread, hidle', rfl, _⟩ := hexec.load_parts hload
  have hcrash₄ : s₄.crashes = ∅ := by
    rw [← hcrash, hctrl.memory, hidle'.memory]
  have hmem := (s.prepared_memory read).2
  have hstores := s.prepared_storesOf read
  -- the preparation of the load changes nothing that it reads
  have hinit : Goes (MemStep cfg) (fun e => e = .initial read.word) s (s.prepared read) :=
    s.prepared_goes fun _ => rfl
  have hr := Goes.recorded hcfg hinit hl.recorded
  have hs := Goes.sorted hcfg hinit hl.recorded hl.sorted
  have hk₁ : read.location + i < read.word + 8 →
      (s.prepared read).ByteKept memory read.word (read.location + i) := fun hlt =>
    s.prepared_byteKept hcfg (read.word_le_location i) hlt hl.opened (hk hlt) read
  have hreaches₁ := hreaches.of_storesOf hstores
  have ho : (s.prepared read).Opened := by
    apply hinit.invariant (I := Model.Opened) _ hl.opened
    rintro x e y rfl hx hstep
    exact hstep.opened hcfg nofun hx
  rw [s.prepared_threadId, ← htid] at hdrain
  rw [← htid]
  apply s.prepared_tsoByte read
  by_cases hrmw : read.type = .atomicRmwr
  · -- an RMW drains the buffer first, and reads with an empty one
    rw [if_pos hrmw] at hdrain
    have hfiles : (s.prepared read).FilesOwn read := by
      refine ⟨hreaches₁.filed, hreaches₁.uncut, ?_, ?_, hreaches₁.past⟩
      · rw [hmem]
        exact hown.filed hrmw
      · rw [hmem]
        exact fun b hb hw => hown.uncut b hb (.inr ⟨hrmw, hw⟩)
    obtain ⟨hreaches₂, hs₂, hk₂, hback⟩ := hdrain.tso hcfg hr ho hs hfiles hk₁
    apply hback
    have hempty := hdrain.storeBuffer
    have hown₂ : s₂.SeesOwn read := by
      refine ⟨fun h => absurd hrmw h, ?_, ?_⟩
      · intro _ b hb
        rw [hempty] at hb
        cases hb
      · intro b hb
        rw [hempty] at hb
        cases hb
    refine hidle.read_tso hcfg hread hcrash₄ hown₂ ?_ hreaches₂ hs₂ hk₂ hi
    intro b hb
    rw [Model.newestBuffered_of_nil hempty] at hb
    cases hb
  · -- a plain load looks into the buffer first
    rw [if_neg hrmw] at hdrain
    subst hdrain
    have hown₁ : (s.prepared read).SeesOwn read := by
      refine ⟨?_, ?_, ?_⟩
      · intro hnot j hj b hb
        have hsame : ((s.prepared read).threadMemory read.tid).storeBuffer =
            (s.threadMemory read.tid).storeBuffer := by rw [hmem]
        rw [Model.newestBuffered_of_storeBuffer hsame] at hb
        exact hown.kind hnot j hj b hb
      · rw [hmem]
        exact hown.filed
      · rw [hmem]
        exact hown.uncut
    exact hidle.read_tso hcfg hread hcrash₄ hown₁ (hown₁.kind hrmw i hi) hreaches₁ hs hk₁ hi

end

/-! ## Runs -/

section

variable {cfg : Config} {n cxlMapping : Nat} {memory : Nat → Nat} {mutexType : MutexId → MutexType}
  {tr : List (Model × Label)} {s' : Model}

/-- In a run without a crash a load observes what x86-TSO lets it observe, if its buffer and its list
have what it needs and the program keeps the byte. -/
theorem load_tso (hcfg : cfg.memPoison = false)
    (hrun : IsRun cfg n cxlMapping memory mutexType tr s') (hfree : CrashFree tr s')
    {x : Model × Label × Model} (hx : x ∈ stepsOf tr s') {a : ModelAction} {v : Nat} {rf : Slots}
    (hev : x.2.1.event = .executed a v rf) (hload : a.isLoad = true) (hown : x.1.SeesOwn a)
    (hreaches : x.1.Reaches a) {i : Nat}
    (hkeeps : a.location + i < a.word + 8 →
      ∀ y ∈ stepsOf tr s', y.2.1.event.KeepsByte y.1 a.word (a.location + i))
    (hi : i < a.size) : x.1.TsoByte memory x.2.1.tid (a.location + i) (byteOf v i) := by
  obtain ⟨hplaced, hl, htid, hcase⟩ := (hrun.listed hcfg).1 x hx
  rw [hev] at hcase
  rw [htid]
  refine hcase.load_tsoByte hcfg hplaced hload (hfree x hx) hown hreaches hl ?_ hi
  exact fun hlt => (hrun.byteKept hcfg (a.word_le_location i) hlt (hkeeps hlt)).1 x hx

/-- Where every store is naturally aligned, all that a naturally aligned load needs of its buffer is
that the newest store of each byte is a `NONATOMIC_STORE`. -/
theorem Model.StoresAligned.seesOwn {s : Model} {read : ModelAction} (hs : s.StoresAligned)
    (hread : read.NaturallyAligned)
    (hkind : ∀ i, i < read.size → ∀ b,
      s.newestBuffered read.tid (read.location + i) = some b → b.type = .nonatomicStore) :
    s.SeesOwn read := by
  refine ⟨fun _ => hkind, ?_, ?_⟩
  · intro _ b hb hw i hi hc
    have hcovered : read.Covers (read.location + i) := ⟨Nat.le_add_right _ _, by omega⟩
    rw [← (hs.buffered _ b hb hw).alignAddress_eq hc, hread.alignAddress_eq hcovered]
  · intro b hb hlooked
    have hw : b.isWrite = true := by
      rcases hlooked with htype | ⟨_, hw⟩
      · exact isWrite_of_nonatomicStore htype
      · exact hw
    exact (hs.buffered _ b hb hw).not_cuts hread

end

/-! ## A store that is forwarded and one that is not -/

/-- The step is the load of the byte `addr` by thread 0 with the value `v`, while the thread has a store
to it in its buffer; the byte of that store is `b`. -/
def loadsBuffered (addr v b : Nat) (x : Model × Label × Model) : Bool :=
  match x.2.1.event with
  | .executed a w _ =>
      decide (a.isLoad = true ∧ a.location = addr ∧ a.size = 1 ∧ a.tid = 0 ∧ x.2.1.tid = 0 ∧ w = v) &&
        match x.1.newestBuffered 0 addr with
        | some c => decide (c.byteAt addr = b)
        | none => false
  | _ => false

theorem loadsBuffered_iff {addr v b : Nat} {x : Model × Label × Model} :
    loadsBuffered addr v b x = true ↔ ∃ a rf c, x.2.1.event = .executed a v rf ∧ a.isLoad = true ∧
      a.location = addr ∧ a.size = 1 ∧ a.tid = 0 ∧ x.2.1.tid = 0 ∧
      x.1.newestBuffered 0 addr = some c ∧ c.byteAt addr = b := by
  unfold loadsBuffered
  constructor
  · intro h
    split at h
    case h_2 => cases h
    case h_1 a w rf hev =>
      simp only [Bool.and_eq_true, decide_eq_true_eq] at h
      obtain ⟨⟨hload, hloc, hsize, htid, hself, rfl⟩, h⟩ := h
      split at h
      case h_2 => cases h
      case h_1 c hc =>
        exact ⟨a, rf, c, hev, hload, hloc, hsize, htid, hself, hc, of_decide_eq_true h⟩
  · rintro ⟨a, rf, c, hev, hload, hloc, hsize, htid, hself, hc, hbyte⟩
    simp [hev, hload, hloc, hsize, htid, hself, hc, hbyte]

/-- `load_tso` for a load of one byte of a store that is in the buffer of its thread. -/
theorem load_tso_forwarded : ∃ tr s x a v rf c,
    IsRun .asBuilt 1 4096 (fun _ => 0) (fun _ => .default) tr s ∧ CrashFree tr s ∧
    x ∈ stepsOf tr s ∧ x.2.1.event = .executed a v rf ∧ a.isLoad = true ∧ a.size = 1 ∧ v = 5 ∧
    x.1.newestBuffered x.2.1.tid a.location = some c ∧
    ∀ i, i < a.size → x.1.TsoByte (fun _ => 0) x.2.1.tid (a.location + i) (byteOf v i) := by
  obtain ⟨tr, s, hrun, hcheck⟩ := exists_run_of_replay .asBuilt
    (Model.init 1 4096 (fun _ => 0) (fun _ => .default))
    [({ call := .store 4096 .w64 0x0102030405060708 }, []), ({}, []), ({}, []),
      ({ call := .load 4099 .w8 }, []), ({}, [])]
    (fun tr s => crashFree tr s &&
      (stepsOf tr s).all (fun x => decide x.2.1.event.Aligned && x.2.1.event.createsNone) &&
      (stepsOf tr s).any fun x => loadsBuffered 4099 5 5 x &&
        (x.1.threadMemory 0).storeBuffer.all fun b : ModelAction => b.type = .nonatomicStore)
    (by decide +kernel)
  simp only [Bool.and_eq_true, List.all_eq_true, List.any_eq_true, decide_eq_true_eq] at hcheck
  obtain ⟨⟨hfree, hall⟩, x, hx, hload, hkind⟩ := hcheck
  obtain ⟨a, rf, c, hev, hload, hloc, hsize, htid, hself, hnewest, _⟩ := loadsBuffered_iff.mp hload
  have hrun' : IsRun .asBuilt 1 4096 (fun _ => 0) (fun _ => .default) tr s := ⟨by decide, hrun⟩
  have hfree := crashFree_iff hfree
  have hstores := (hrun'.storesAligned rfl fun y hy => (hall y hy).1).1
  have hlisted := (hrun'.listed rfl).1
  have haligned : a.NaturallyAligned := ⟨.inl hsize, by rw [hsize, Nat.mod_one]⟩
  have hown : x.1.SeesOwn a := by
    apply (hstores x hx).2.seesOwn haligned
    intro i _ b hb
    rw [htid] at hb
    exact hkind b (List.mem_reverse.mp (List.mem_of_find?_eq_some hb))
  refine ⟨tr, s, x, a, 5, rf, c, hrun', hfree, hx, hev, hload, hsize, rfl, ?_, ?_⟩
  · rw [hself, hloc]
    exact hnewest
  · intro i hi
    have hword : alignAddress (a.location + i) = a.word :=
      haligned.alignAddress_eq ⟨Nat.le_add_right _ _, by omega⟩
    exact load_tso rfl hrun' hfree hx hev hload hown
      ((hstores x hx).2.reaches (hlisted x hx).2.1.recorded haligned)
      (fun _ => hrun'.keepsByte rfl hword (fun y hy => (hall y hy).1) fun y hy => (hall y hy).2) hi

/-- A thread does not read back its own relaxed atomic store while it is in its buffer. -/
theorem load_not_tso : ∃ tr s x a v rf c,
    IsRun .asBuilt 1 4096 (fun _ => 0) (fun _ => .default) tr s ∧ CrashFree tr s ∧
    x ∈ stepsOf tr s ∧ x.2.1.event = .executed a v rf ∧ a.isLoad = true ∧ a.NaturallyAligned ∧
    x.1.newestBuffered x.2.1.tid a.location = some c ∧ c.NaturallyAligned ∧ c.byteAt a.location = 7 ∧
    v = 0 ∧ ¬ x.1.TsoByte (fun _ => 0) x.2.1.tid a.location (byteOf v 0) := by
  obtain ⟨tr, s, hrun, hcheck⟩ := exists_run_of_replay .asBuilt
    (Model.init 1 4096 (fun _ => 0) (fun _ => .default))
    [({ call := .atomicStore 4096 .w8 7 0 }, []), ({}, []), ({}, []),
      ({ call := .load 4096 .w8 }, []), ({}, [])]
    (fun tr s => crashFree tr s && (stepsOf tr s).any fun x => loadsBuffered 4096 0 7 x &&
      (x.1.threadMemory 0).storeBuffer.all fun b : ModelAction => decide b.NaturallyAligned)
    (by decide +kernel)
  simp only [Bool.and_eq_true, List.any_eq_true, List.all_eq_true, decide_eq_true_eq] at hcheck
  obtain ⟨hfree, x, hx, hload, haligned⟩ := hcheck
  obtain ⟨a, rf, c, hev, hload, hloc, hsize, _, hself, hnewest, hbyte⟩ := loadsBuffered_iff.mp hload
  rw [← hloc] at hnewest hbyte
  rw [← hself] at hnewest
  refine ⟨tr, s, x, a, 0, rf, c, ⟨by decide, hrun⟩, crashFree_iff hfree, hx, hev, hload,
    ⟨.inl hsize, by rw [hsize, Nat.mod_one]⟩, hnewest, ?_, hbyte, rfl, ?_⟩
  · rw [hself] at hnewest
    exact haligned c (List.mem_reverse.mp (List.mem_of_find?_eq_some hnewest))
  · intro h
    rcases h with ⟨d, hd, hv⟩ | ⟨hnone, _⟩
    · rw [hnewest] at hd
      cases hd
      rw [hbyte] at hv
      cases hv
    · rw [hnewest] at hnone
      cases hnone

end Cxlmc
