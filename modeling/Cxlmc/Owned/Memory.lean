import Mathlib.Data.Nat.Digits.Lemmas
import Cxlmc.Effect.Clocks
import Cxlmc.Lib.FlatMemory
import Cxlmc.Owned.Reads
import Cxlmc.Owned.Stores
import Cxlmc.System.Tso

/-!
# Memory that one thread has to itself

The store buffers, the lists and the intervals are there for memory that is shared. Where only one thread
stores to some addresses, with naturally aligned non-atomic stores, and reads them with naturally aligned
loads, it should see none of this. The stores that it has executed there are those in the lists and then
those in its buffer (`Model.Owns`), the newest of them is what a read finds (`Model.Owns.newest`), and no
crash of another process takes it away.
-/

namespace Cxlmc

open Stateful Fill

/-! ## Stores to a flat memory -/

/-- The stores of a list that cover a byte. -/
def covering (x : Nat) (stores : List ModelAction) : List ModelAction := stores.filter fun a => a.Covers x

/-- The flat memory that begins as `memory` and then takes the stores, oldest first. -/
def storedMemory (memory : Nat → Nat) (stores : List ModelAction) : FlatMemory :=
  stores.foldl (fun m a => m.store a.location a.size a.value) fun x => UInt8.ofNat (memory x)

section

variable {memory : Nat → Nat} {stores : List ModelAction} {a : ModelAction} {x : Nat}

@[simp] theorem covering_nil : covering x [] = [] := rfl

@[simp] theorem covering_append (stores stores' : List ModelAction) :
    covering x (stores ++ stores') = covering x stores ++ covering x stores' := List.filter_append ..

theorem covering_cons_of_covers (h : a.Covers x) : covering x (a :: stores) = a :: covering x stores :=
  List.filter_cons_of_pos (by simpa using h)

theorem covering_cons_of_not (h : ¬ a.Covers x) : covering x (a :: stores) = covering x stores :=
  List.filter_cons_of_neg (by simpa using h)

theorem storedMemory_concat (memory : Nat → Nat) (stores : List ModelAction) (a : ModelAction) :
    storedMemory memory (stores ++ [a]) = (storedMemory memory stores).store a.location a.size a.value :=
  List.foldl_concat ..

/-- The byte of a store, as the flat memory has it. -/
theorem ofNat_byteAt (a : ModelAction) (x : Nat) :
    UInt8.ofNat (a.byteAt x) = UInt8.ofNat (a.value / 256 ^ (x - a.location)) := by
  rw [byteAt_eq_byteOf, byteOf_eq]
  apply UInt8.toNat_inj.mp
  rw [UInt8.toNat_ofNat', UInt8.toNat_ofNat', Nat.mod_mod]

/-- Each byte of the flat memory is that of the newest store that covers it. -/
theorem storedMemory_apply (memory : Nat → Nat) (stores : List ModelAction) (x : Nat) :
    storedMemory memory stores x =
      UInt8.ofNat (((covering x stores).map (·.byteAt x)).getLast?.getD (memory x)) := by
  induction stores using List.reverseRecOn with
  | nil => rfl
  | append_singleton stores a ih =>
      rw [storedMemory_concat, FlatMemory.store_apply, covering_append]
      split
      · next hcovers =>
          rw [covering_cons_of_covers hcovers, ← ofNat_byteAt]
          simp
      · next hcovers =>
          rw [covering_cons_of_not hcovers, ih]
          simp

end

/-! ## What the program keeps to -/

namespace ModelAction

/-- The action has a byte in the region. -/
def Touches (a : ModelAction) (region : Nat → Bool) : Bool :=
  (List.range a.size).any fun j => region (a.location + j)

theorem touches_iff {a : ModelAction} {region : Nat → Bool} :
    a.Touches region = true ↔ ∃ x, a.Covers x ∧ region x = true := by
  rw [Touches, List.any_eq_true]
  constructor
  · rintro ⟨j, hj, hin⟩
    rw [List.mem_range] at hj
    exact ⟨a.location + j, ⟨Nat.le_add_right _ _, by omega⟩, hin⟩
  · rintro ⟨x, ⟨hlo, hhi⟩, hin⟩
    refine ⟨x - a.location, List.mem_range.mpr (by omega), ?_⟩
    rwa [Nat.add_sub_cancel' hlo]

/-- Only `t` stores to the region, with naturally aligned `cxlmc_store`s, and it loads from it with naturally
aligned loads that stay inside. -/
structure KeepsTo (a : ModelAction) (t : ThreadId) (region : Nat → Bool) : Prop where
  store : a.isWrite = true → a.Touches region = true →
    a.tid = t ∧ a.type = .nonatomicStore ∧ a.NaturallyAligned
  load : a.isLoad = true → a.tid = t → a.Touches region = true →
    a.NaturallyAligned ∧ ∀ x, a.Covers x → region x = true
  create : a.type = .pthreadCreate → ∀ x, a.location ≤ x → x < a.location + 4 → region x = false

instance (a : ModelAction) (t : ThreadId) (region : Nat → Bool) : Decidable (a.KeepsTo t region) :=
  decidable_of_iff
    ((a.isWrite = true → a.Touches region = true →
        a.tid = t ∧ a.type = .nonatomicStore ∧ a.NaturallyAligned) ∧
      (a.isLoad = true → a.tid = t → a.Touches region = true →
        a.NaturallyAligned ∧ ∀ j : Nat, j < a.size → region (a.location + j) = true) ∧
      (a.type = .pthreadCreate → ∀ j : Nat, j < 4 → region (a.location + j) = false)) (by
    constructor
    · rintro ⟨hstore, hload, hcreate⟩
      refine ⟨hstore, ?_, ?_⟩
      · intro hl ht htouches
        obtain ⟨haligned, hin⟩ := hload hl ht htouches
        refine ⟨haligned, ?_⟩
        rintro x ⟨hlo, hhi⟩
        rw [← Nat.add_sub_cancel' hlo]
        exact hin _ (by omega)
      · intro htype x hlo hhi
        rw [← Nat.add_sub_cancel' hlo]
        exact hcreate htype _ (by omega)
    · intro h
      refine ⟨h.store, ?_, ?_⟩
      · intro hl ht htouches
        obtain ⟨haligned, hin⟩ := h.load hl ht htouches
        exact ⟨haligned, fun j hj => hin _ ⟨Nat.le_add_right _ _, by omega⟩⟩
      · intro htype j hj
        exact h.create htype _ (Nat.le_add_right _ _) (by omega))

end ModelAction

/-- What the program asks for keeps to this. -/
def Event.KeepsTo (t : ThreadId) (region : Nat → Bool) : Event → Prop
  | .called a => a.KeepsTo t region
  | _ => True

instance (e : Event) (t : ThreadId) (region : Nat → Bool) : Decidable (e.KeepsTo t region) :=
  match e with
  | .called a => inferInstanceAs (Decidable (a.KeepsTo t region))
  | .executed _ _ _ | .blocked _ | .finished _ | .popped _ | .returned _ | .noAction | .exited => .isTrue trivial

namespace Model

/-- So does what waits to be executed. -/
def ReadyKeeps (s : Model) (t : ThreadId) (region : Nat → Bool) : Prop :=
  ∀ u a ret, s.contextOf u = .ready a ret → a.KeepsTo t region

/-- The stores to the region are those that `t` has executed: oldest first, those of the lists and then those
of its buffer. -/
structure Owns (s : Model) (t : ThreadId) (region : Nat → Bool) (executed : List ModelAction) : Prop where
  head : ∀ w a rest, s.objToWr w = a :: rest → a.type = .atomicInit → IsInitialValue w a
  evicted : ∀ w, ∀ a ∈ s.storesOf w, a.Touches region = true → a.tid = t ∧ a.NaturallyAligned
  others : ∀ u, u ≠ t → ∀ b ∈ (s.threadMemory u).storeBuffer, b.isWrite = true → b.Touches region = false
  own : ∀ b ∈ (s.threadMemory t).storeBuffer, b.isWrite = true → b.Touches region = true →
    b.type = .nonatomicStore ∧ b.NaturallyAligned
  order : ∀ x, region x = true → covering x executed =
    (covering x (s.storesOf (alignAddress x))).map (·.unsequenced) ++ covering x (s.bufferedStores t)

end Model

section

variable {cfg : Config} {s s' : Model} {e : Effect} {ev : Event} {t : ThreadId} {region : Nat → Bool}
  {executed : List ModelAction} {b : ModelAction} {x : Nat}

/-! ## Effects -/

theorem MemStep.owns_head (hcfg : cfg.memPoison = false) (h : MemStep cfg s e s') (ho : s.Opened)
    (hs : s.Owns t region executed) :
    ∀ w a rest, s'.objToWr w = a :: rest → a.type = .atomicInit → IsInitialValue w a := by
  intro w a rest hlist htype
  cases h.head hcfg hlist with
  | kept rest' hold => exact hs.head w a rest' hold htype
  | evicted u b hmem _ hword hempty heq =>
      subst hword heq
      exact absurd hempty (ho.buffered u b hmem htype)
  | initial _ heq =>
      subst heq
      exact ⟨rfl, rfl, rfl, rfl⟩

/-- An eviction moves a store of the thread from its buffer to a list; one of another thread is not in the
region. -/
theorem MemStep.owns_popStore {u : ThreadId} (hcfg : cfg.memPoison = false)
    (h : MemStep cfg s (.popStore u b) s') (hr : s.Recorded) (ho : s.Opened)
    (hs : s.Owns t region executed) : s'.Owns t region executed := by
  obtain ⟨rest, hrest⟩ := h.taken rfl
  have hwrite : b.isWrite = true := by
    cases h with
    | popStore _ _ _ _ hw => exact hw
  have hmem : b ∈ (s.threadMemory u).storeBuffer := by
    rw [hrest]
    exact List.mem_cons_self
  obtain ⟨htid, _, hseq⟩ := hr.buffered u b hmem
  have hstores := h.storesOf hcfg ho
  have hkept : ∀ v c, c ∈ (s'.threadMemory v).storeBuffer → c ∈ (s.threadMemory v).storeBuffer := by
    intro v c hc
    rcases h.mem_storeBuffer hcfg hc with hc | ⟨he, _⟩
    · exact hc
    · cases he
  -- where the store meets the region it is one of the thread
  have hown : b.Touches region = true → u = t ∧ b.type = .nonatomicStore ∧ b.NaturallyAligned := by
    intro htouches
    by_cases hu : u = t
    · subst hu
      exact ⟨rfl, hs.own b hmem hwrite htouches⟩
    · rw [hs.others u hu b hmem hwrite] at htouches
      cases htouches
  refine ⟨h.owns_head hcfg ho hs, ?_, fun v hv c hc => hs.others v hv c (hkept v c hc),
    fun c hc => hs.own c (hkept t c hc), ?_⟩
  · intro w a ha htouches
    rw [hstores w, Effect.storesOf] at ha
    split at ha
    · rcases List.mem_append.mp ha with ha | ha
      · exact hs.evicted w a ha htouches
      · rw [List.mem_singleton.mp ha] at htouches ⊢
        obtain ⟨rfl, _, haligned⟩ := hown htouches
        exact ⟨htid, haligned⟩
    · exact hs.evicted w a ha htouches
  · intro x hx
    rw [hs.order x hx, hstores, Effect.storesOf]
    have hbuf := h.storeBuffer hcfg t
    by_cases hcovers : b.Covers x
    · obtain ⟨rfl, _, haligned⟩ := hown (ModelAction.touches_iff.mpr ⟨x, hcovers, hx⟩)
      have hbefore : s.bufferedStores u = b :: s'.bufferedStores u := by
        unfold Model.bufferedStores
        rw [hbuf, Effect.storeBuffer, if_pos rfl, hrest, List.filter_cons_of_pos hwrite, List.tail_cons]
      have hsame : ({ b with tick := s.ticks } : ModelAction).unsequenced = b := by
        rw [ModelAction.unsequenced, ← hseq]
      have hcovers' : ({ b with tick := s.ticks } : ModelAction).Covers x := hcovers
      rw [if_pos (haligned.alignAddress_eq hcovers), hbefore, covering_cons_of_covers hcovers, covering_append,
        covering_cons_of_covers hcovers', List.map_append, List.map_cons, hsame]
      simp
    · have hcovers' : ¬ ({ b with tick := s.ticks } : ModelAction).Covers x := hcovers
      have hbefore : covering x (s.bufferedStores t) = covering x (s'.bufferedStores t) := by
        unfold Model.bufferedStores
        rw [hbuf, Effect.storeBuffer]
        split
        · next hu =>
            rw [hu, hrest, List.filter_cons_of_pos hwrite, covering_cons_of_not hcovers, List.tail_cons]
        · rfl
      rw [hbefore]
      split
      · rw [covering_append, covering_cons_of_not hcovers']
        simp
      · rfl

/-- What is pushed is added to what the thread has executed, where it is a store of the thread. -/
theorem MemStep.owns_push (hcfg : cfg.memPoison = false) (h : MemStep cfg s (.push b) s') (ho : s.Opened)
    (hb : b.isWrite = true → b.Touches region = true →
      b.tid = t ∧ b.type = .nonatomicStore ∧ b.NaturallyAligned)
    (hs : s.Owns t region executed) :
    s'.Owns t region (executed ++ if b.tid = t ∧ b.isWrite = true then [b] else []) := by
  have htid : b.tid = s.threadId := by
    cases h with
    | push _ htid _ _ _ => exact htid
  have hbuf := h.storeBuffer hcfg
  have hstores : ∀ w, s'.storesOf w = s.storesOf w := h.storesOf hcfg ho
  refine ⟨h.owns_head hcfg ho hs, fun w a ha => hs.evicted w a (hstores w ▸ ha), ?_, ?_, ?_⟩
  · intro u hu c hc hw
    rcases h.mem_storeBuffer hcfg hc with hc | ⟨he, rfl⟩
    · exact hs.others u hu c hc hw
    · cases he
      rw [Bool.eq_false_iff]
      exact fun htouches => hu (htid.symm.trans (hb hw htouches).1)
  · intro c hc hw htouches
    rcases h.mem_storeBuffer hcfg hc with hc | ⟨he, _⟩
    · exact hs.own c hc hw htouches
    · cases he
      exact (hb hw htouches).2
  · intro x hx
    have hafter : s'.bufferedStores t = s.bufferedStores t ++ if b.tid = t ∧ b.isWrite = true then [b] else [] := by
      unfold Model.bufferedStores
      rw [hbuf, Effect.storeBuffer, htid]
      by_cases hw : b.isWrite = true <;> by_cases ht : t = s.threadId <;> simp [hw, ht, eq_comm]
    rw [covering_append, hs.order x hx, hstores, hafter, covering_append, List.append_assoc]

/-- Every other effect leaves the stores where they are. -/
theorem MemStep.owns (hcfg : cfg.memPoison = false) (h : MemStep cfg s e s') (hr : s.Recorded) (ho : s.Opened)
    (hpush : ∀ b, e = .push b → b.isWrite = true → b.tid ≠ t ∧ b.Touches region = false)
    (hs : s.Owns t region executed) : s'.Owns t region executed := by
  have hstores := h.storesOf hcfg ho
  -- an effect that is no push and no eviction
  have hsame : (∀ w, e.storesOf s w = s.storesOf w) → (∀ b, e ≠ .push b) →
      s'.bufferedStores t = s.bufferedStores t → s'.Owns t region executed := by
    intro hlists hnot hbuffered
    have hkept : ∀ v c, c ∈ (s'.threadMemory v).storeBuffer → c ∈ (s.threadMemory v).storeBuffer := by
      intro v c hc
      rcases h.mem_storeBuffer hcfg hc with hc | ⟨he, _⟩
      · exact hc
      · exact absurd he (hnot c)
    refine ⟨h.owns_head hcfg ho hs, ?_, fun v hv c hc => hs.others v hv c (hkept v c hc),
      fun c hc => hs.own c (hkept t c hc), ?_⟩
    · intro w a ha
      rw [hstores, hlists] at ha
      exact hs.evicted w a ha
    · intro x hx
      rw [hs.order x hx, hstores, hlists, hbuffered]
  have hflush : ∀ {u : ThreadId} {b : ModelAction}, e.taken = some (u, b) → b.isWrite = false →
      s'.bufferedStores t = s.bufferedStores t := fun he hb => h.bufferedStores_of_taken hcfg he hb
  have hbuf : (s'.threadMemory t).storeBuffer = (s.threadMemory t).storeBuffer →
      s'.bufferedStores t = s.bufferedStores t := by
    intro heq
    unfold Model.bufferedStores
    rw [heq]
  have hframe := h.storeBuffer hcfg t
  cases e with
  | popStore u b => exact h.owns_popStore hcfg hr ho hs
  | push b =>
      have hnone : ¬ (b.tid = t ∧ b.isWrite = true) := fun hboth => (hpush b rfl hboth.2).1 hboth.1
      have hafter := h.owns_push hcfg ho (fun hw htouches => by
        rw [(hpush b rfl hw).2] at htouches
        cases htouches) hs
      rwa [if_neg hnone, List.append_nil] at hafter
  | popClflush u b =>
      refine hsame (fun _ => rfl) (by simp) (hflush rfl ?_)
      cases h with
      | popClflush _ _ _ _ htype => simp [ModelAction.isWrite, htype]
  | popClflushopt u b =>
      refine hsame (fun _ => rfl) (by simp) (hflush rfl ?_)
      cases h with
      | popClflushopt _ _ _ _ htype => simp [ModelAction.isWrite, htype]
  | popSfence u b =>
      refine hsame (fun _ => rfl) (by simp) (hflush rfl ?_)
      cases h with
      | popSfence _ _ _ _ htype => simp [ModelAction.isWrite, htype]
  | _ => exact hsame (fun _ => rfl) (by simp) (hbuf hframe)

/-! ## Reads -/

section

variable {read w : ModelAction} {memory : Nat → Nat} {rf : Slots} {i : Nat}

theorem ModelAction.covers_of_lt (hi : i < read.size) : read.Covers (read.location + i) :=
  ⟨Nat.le_add_right _ _, Nat.add_lt_add_left hi _⟩

/-- A store with a byte of its own in a read of the region, or none at all there, does not cut the read. -/
theorem ModelAction.NaturallyAligned.not_cuts_of_touches (hread : read.NaturallyAligned)
    (hinside : ∀ x, read.Covers x → region x = true) (hw : w.Touches region = true → w.NaturallyAligned) :
    ¬ w.Cuts read := by
  intro hcuts
  obtain ⟨hlt, hin, hend⟩ := hcuts
  have hcovers : read.Covers read.location := ⟨Nat.le_refl _, by omega⟩
  have haligned := hw (ModelAction.touches_iff.mpr ⟨read.location, ⟨Nat.le_of_lt hlt, hin⟩, hinside _ hcovers⟩)
  exact haligned.not_cuts hread ⟨hlt, hin, hend⟩

theorem IsInitialValue.naturallyAligned (h : IsInitialValue read.word w) : w.NaturallyAligned := by
  obtain ⟨_, hloc, hsize, _⟩ := h
  refine ⟨.inr (.inr (.inr hsize)), ?_⟩
  rw [hloc, hsize, ModelAction.word, alignAddress]
  omega

/-- A candidate takes the slots of the bytes that it covers. -/
theorem Model.Owns.wants_iff (hs : s.Owns t region executed) (htid : read.tid = t)
    (hread : read.NaturallyAligned) (hinside : ∀ x, read.Covers x → region x = true) (hi : i < read.size)
    (hw : w ∈ s.candidates read) : wants read w i = true ↔ w.Covers (read.location + i) := by
  apply wants_iff_covers_of_not_cuts _ hi
  rcases List.mem_append.mp hw with hw | hw
  · obtain ⟨hw, htype⟩ := List.mem_filter.mp hw
    rw [htid] at hw
    apply hread.not_cuts_of_touches hinside
    intro htouches
    exact (hs.own w (List.mem_reverse.mp hw) (isWrite_of_nonatomicStore (of_decide_eq_true htype)) htouches).2
  · rw [List.mem_reverse] at hw
    rcases eq_or_cons_evictedStores (s.objToWr read.word) with hlist | ⟨a, htype, hlist⟩
    · rw [hlist] at hw
      exact hread.not_cuts_of_touches hinside fun htouches => (hs.evicted _ w hw htouches).2
    · have hinit := hs.head _ a _ hlist htype
      rw [hlist] at hw
      rcases List.mem_cons.mp hw with rfl | hw
      · exact hinit.naturallyAligned.not_cuts hread
      · exact hread.not_cuts_of_touches hinside fun htouches => (hs.evicted _ w hw htouches).2

/-- The candidates that cover a byte of the region, from the newest on. -/
theorem Model.Owns.covering_candidates (hs : s.Owns t region executed) (htid : read.tid = t)
    (hx : region x = true) :
    covering x (s.candidates read) =
      (covering x (s.objToWr read.word) ++ covering x (s.bufferedStores t)).reverse := by
  have hbuf : covering x ((s.threadMemory t).storeBuffer.filter fun w => w.type = .nonatomicStore) =
      covering x (s.bufferedStores t) := by
    unfold covering Model.bufferedStores
    rw [List.filter_filter, List.filter_filter]
    apply List.filter_congr
    intro b hb
    by_cases hcovers : b.Covers x
    · -- the stores of the buffer that cover the byte are those that the bypass looks at
      have htouches := ModelAction.touches_iff.mpr ⟨x, hcovers, hx⟩
      have hiff : b.type = .nonatomicStore ↔ b.isWrite = true :=
        ⟨isWrite_of_nonatomicStore, fun hw => (hs.own b hb hw htouches).1⟩
      simp [hcovers, hiff]
    · simp [hcovers]
  rw [List.reverse_append, ← hbuf, Model.candidates, covering_append, htid]
  unfold covering
  simp only [List.filter_reverse]

/-- The newest candidate that covers a byte has the byte that the thread has stored last, or the initial one. -/
theorem Model.Owns.newest (hs : s.Owns t region executed) (htid : read.tid = t) (hx : region x = true)
    (hword : alignAddress x = read.word) (hkept : s.ByteKept memory read.word x)
    (hfind : (s.candidates read).find? (fun w => decide (w.Covers x)) = some w) :
    w.byteAt x = ((covering x executed).map (·.byteAt x)).getLast?.getD (memory x &&& 0xff) := by
  rw [← List.head?_filter] at hfind
  change (covering x (s.candidates read)).head? = some w at hfind
  rw [hs.covering_candidates htid hx, List.head?_reverse] at hfind
  have hbytes : (covering x executed).map (·.byteAt x) =
      (covering x (s.storesOf read.word) ++ covering x (s.bufferedStores t)).map (·.byteAt x) := by
    rw [hs.order x hx, hword, List.map_append, List.map_append, List.map_map]
    rfl
  rw [hbytes, List.getLast?_map]
  rcases eq_or_cons_evictedStores (s.objToWr read.word) with hlist | ⟨a, htype, hlist⟩
  · rw [hlist] at hfind
    change (covering x (s.storesOf read.word) ++ _).getLast? = some w at hfind
    rw [hfind]
    rfl
  · obtain ⟨_, hloc, hsize, _⟩ := hs.head _ a _ hlist htype
    have hcovers : a.Covers x := by
      rw [ModelAction.Covers, hloc, hsize, ← hword, alignAddress]
      omega
    rw [hlist, covering_cons_of_covers hcovers, List.cons_append, List.getLast?_cons] at hfind
    change some ((covering x (s.storesOf read.word) ++ _).getLast?.getD a) = some w at hfind
    rw [← Option.some.inj hfind]
    cases (covering x (s.storesOf read.word) ++ covering x (s.bufferedStores t)).getLast? with
    | none => exact hkept.head a _ hlist htype
    | some c => rfl

/-- A read inside the region finds for each byte what the thread has stored there last. -/
theorem MemStep.read_owned (hcfg : cfg.memPoison = false) (h : MemStep cfg s (.read read rf) s')
    (hs : s.Owns t region executed) (hr : s.Recorded) (htid : read.tid = t) (hread : read.NaturallyAligned)
    (hinside : ∀ x, read.Covers x → region x = true)
    (hlive : s'.isCrashed (s'.threads t).processId = false) (hi : i < read.size)
    (hkept : s.ByteKept memory read.word (read.location + i)) :
    ∃ w, rf[i]? = some (some w) ∧ w.byteAt (read.location + i) =
      ((covering (read.location + i) executed).map (·.byteAt (read.location + i))).getLast?.getD
        (memory (read.location + i) &&& 0xff) := by
  have hcovers : read.Covers (read.location + i) := ModelAction.covers_of_lt hi
  have hx := hinside _ hcovers
  obtain ⟨w, hfind, hslot⟩ := h.slot_first hcfg hi (by
    intro w hw
    have hmem := List.mem_reverse.mp (List.mem_of_find?_eq_some hw)
    have hwants := List.find?_some hw
    have hcandidate : w ∈ s.candidates read := List.mem_append_right _ (List.mem_reverse.mpr hmem)
    have hwcovers := (hs.wants_iff htid hread hinside hi hcandidate).mp hwants
    have htouches := ModelAction.touches_iff.mpr ⟨_, hwcovers, hx⟩
    have hlisted : w ∈ s.storesOf read.word → s'.isCrashed (s'.getProcessId w) = false := by
      intro hw
      rw [Model.getProcessId, (hs.evicted _ w hw htouches).1]
      exact hlive
    rcases eq_or_cons_evictedStores (s.objToWr read.word) with hlist | ⟨a, htype, hlist⟩
    · rw [hlist] at hmem
      exact .inl (hlisted hmem)
    · obtain ⟨_, _, _, hzero⟩ := hs.head _ a _ hlist htype
      have hcases := hmem
      rw [hlist] at hcases
      rcases List.mem_cons.mp hcases with rfl | hw
      · -- the initial value has persisted from the start
        refine .inr ⟨hr.line_of_mem hmem, ?_⟩
        rw [Model.Durable, ModelAction.seqNum_eq_zero hzero]
        exact Nat.zero_le _
      · exact .inl (hlisted hw))
  refine ⟨w, hslot, hs.newest htid hx (hread.alignAddress_eq hcovers) hkept ?_⟩
  rw [← hfind]
  rw [← List.head?_filter, ← List.head?_filter]
  congr 1
  apply List.filter_congr
  intro c hc
  rw [Bool.eq_iff_iff, decide_eq_true_iff]
  exact (hs.wants_iff htid hread hinside hi hc).symm

/-- The value of such a read is what a flat memory holds after the stores of the thread. -/
theorem MemStep.value_owned (hcfg : cfg.memPoison = false) (h : MemStep cfg s (.read read rf) s')
    (hs : s.Owns t region executed) (hr : s.Recorded) (htid : read.tid = t) (hread : read.NaturallyAligned)
    (hinside : ∀ x, read.Covers x → region x = true)
    (hlive : s'.isCrashed (s'.threads t).processId = false)
    (hkept : ∀ i, i < read.size → s.ByteKept memory read.word (read.location + i)) :
    getReadValue read.location rf = (storedMemory memory executed).load read.location read.size := by
  have hslots : (rf.mapIdx fun i o => slotByte (read.location + i) o) =
      (List.range read.size).map fun i => (storedMemory memory executed (read.location + i)).toNat := by
    apply List.ext_getElem?
    intro i
    rw [List.getElem?_mapIdx, List.getElem?_map]
    by_cases hi : i < read.size
    · obtain ⟨w, hslot, hbyte⟩ := h.read_owned hcfg hs hr htid hread hinside hlive hi (hkept i hi)
      rw [hslot, List.getElem?_range hi]
      simp only [Option.map_some, slotByte]
      rw [storedMemory_apply, hbyte, UInt8.toNat_ofNat']
      congr 1
      cases hlast : ((covering (read.location + i) executed).map
          (·.byteAt (read.location + i))).getLast? with
      | none => exact and_0xff _
      | some v =>
          obtain ⟨c, _, rfl⟩ := List.mem_map.mp (List.mem_of_getLast? hlast)
          exact (Nat.mod_eq_of_lt (byteAt_lt c _)).symm
    · have hlen := h.length_slots hcfg
      rw [List.getElem?_eq_none (by omega), List.getElem?_eq_none (by simp; omega)]
      rfl
  rw [getReadValue_eq_ofDigits, hslots, FlatMemory.load, Bytes.ofBytes_eq_ofDigits, List.map_map]
  rfl

end

end

end Cxlmc
