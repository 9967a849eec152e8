import Cxlmc.Effect.Basic
import Cxlmc.Read.CutOff

/-!
# Lazy persistence is an eager cut-off

After the crash of a process `p` the checker never decides what was in the caches of `p`. It decides
store by store, when a read needs to know, and remembers the answers as an interval for each line.
This module compares that with deciding everything at once: a cut-off for each cache line, chosen
when the process crashes. Over any sequence of reads and evictions by the other processes, the two
give the same values (`lazy_eq_eager`).
-/

namespace Cxlmc

open Stateful Fill

/-! ## The two semantics -/

/-- An access to memory by a process that has not crashed. -/
inductive Access where
  | read (a : ModelAction)
  | evict (a : ModelAction)
  deriving DecidableEq, Repr

/-- Hand the token to thread `t`. -/
def Model.activate (s : Model) (t : ThreadId) : Model := { s with activeThread := t }

/-- The code of an access; a read is done by the active thread. -/
def Access.run (cfg : Config) : Access → M (List Nat)
  | .read a => do
      update fun s => s.activate a.tid
      let v ← buildReadFrom cfg a
      return [v]
  | .evict a => do
      let _ ← evictStore a
      return []

/-- The values that the reads of a sequence of accesses return. -/
def runAccesses (cfg : Config) : List Access → M (List Nat)
  | [] => return []
  | x :: xs => do
      let vs ← x.run cfg
      let ws ← runAccesses cfg xs
      return vs ++ ws

/-- The eager semantics: a store of `p` is there if its clock is not after the cut-off of its
line. -/
def eager (proc : ModelAction → ProcessId) (p : ProcessId) (cutOff : Nat → Nat) :
    (Nat → List ModelAction) → (ticks : Nat) → List Access → List Nat
  | _, _, [] => []
  | stores, ticks, .read a :: xs =>
      resolve (fun w => proc w ≠ p || w.seqNum ≤ cutOff a.line) (stores a.word) a ::
        eager proc p cutOff stores ticks xs
  | stores, ticks, .evict a :: xs =>
      eager proc p cutOff
        (Function.update stores a.word (stores a.word ++ [{ a with tick := ticks }])) (ticks + 1) xs

/-- The same with the slots of a read filled as the checker fills them, so that the stores may lie
anywhere. -/
def filledValues (proc : ModelAction → ProcessId) (p : ProcessId) (cutOff : Nat → Nat) :
    (Nat → List ModelAction) → (ticks : Nat) → List Access → List Nat
  | _, _, [] => []
  | stores, ticks, .read a :: xs =>
      getReadValue a.location
          (fillAll (wants a)
            ((stores a.word).reverse.filter fun w => proc w ≠ p || w.seqNum ≤ cutOff a.line)
            (Slots.free a.size)) ::
        filledValues proc p cutOff stores ticks xs
  | stores, ticks, .evict a :: xs =>
      filledValues proc p cutOff
        (Function.update stores a.word (stores a.word ++ [{ a with tick := ticks }])) (ticks + 1) xs

/-! ## The states it is about -/

/-- What an access may be: a naturally aligned one of a process that has not crashed, a read with
an empty store buffer. -/
def Access.Allowed (s : Model) (p : ProcessId) : Access → Prop
  | .read a => a.NaturallyAligned ∧ s.getProcessId a ≠ p ∧ (s.threadMemory a.tid).storeBuffer = []
  | .evict a => a.NaturallyAligned ∧ s.getProcessId a ≠ p ∧ a.isWrite = true

/-- The same with evictions of stores anywhere. -/
def Access.Live (s : Model) (p : ProcessId) : Access → Prop
  | .read a => a.NaturallyAligned ∧ s.getProcessId a ≠ p ∧ (s.threadMemory a.tid).storeBuffer = []
  | .evict a => s.getProcessId a ≠ p ∧ a.isWrite = true

theorem Access.Allowed.live {s : Model} {p : ProcessId} {x : Access} (h : x.Allowed s p) :
    x.Live s p := by
  cases x with
  | read a => exact h
  | evict a => exact h.2

/-- The state after the crash of `p`, as the accesses keep it. -/
structure Recovering (p : ProcessId) (s : Model) : Prop where
  crashed : s.crashes.keys = [p]
  backtrack : ∀ q, s.backtrack q = true
  chain : ∀ w, w % 8 = 0 → StoreChain s.getProcessId p w (s.objToWr w).reverse
  isOpen : ∀ line, (s.objToCl p line).IsOpen

/-- A cut-off for each line that the intervals of `p` admit. -/
def Model.AdmitsAll (s : Model) (p : ProcessId) (cutOff : Nat → Nat) : Prop :=
  ∀ line, (s.objToCl p line).Admits (cutOff line)

/-! ## One access -/

section

variable {cfg : Config} {p : ProcessId} {s s' : Model} {a : ModelAction} {cutOff : Nat → Nat}

theorem word_mod (a : ModelAction) : a.word % 8 = 0 := by
  unfold ModelAction.word alignAddress
  omega

theorem Recovering.afterCrash (h : Recovering p s) : AfterCrash p s :=
  ⟨h.crashed, h.backtrack _⟩

theorem Recovering.activate (h : Recovering p s) (t : ThreadId) :
    Recovering p (s.activate t) :=
  ⟨h.crashed, h.backtrack, h.chain, h.isOpen⟩

theorem Recovering.of_marks {line : Nat} (h : Recovering p s) (hm : Model.Marks line s s')
    (hopen : (s'.objToCl p line).IsOpen) : Recovering p s' := by
  obtain ⟨cls, n, rfl, hcls⟩ := hm
  refine ⟨h.crashed, h.backtrack, h.chain, ?_⟩
  intro line'
  by_cases hl : line' = line
  · rw [hl]
    exact hopen
  · show (cls p line').IsOpen
    rw [hcls p line' hl]
    exact h.isOpen line'

/-- The parts of the state that the eager semantics looks at. -/
structure SameStores (s s' : Model) : Prop where
  stores : s'.objToWr = s.objToWr
  ticks : s'.ticks = s.ticks
  proc : s'.getProcessId = s.getProcessId
  buffers : s'.threadMemory = s.threadMemory

theorem Model.Marks.sameStores {line : Nat} (h : Model.Marks line s s') : SameStores s s' := by
  obtain ⟨cls, n, rfl, _⟩ := h
  exact ⟨rfl, rfl, rfl, rfl⟩

/-- Where everything is naturally aligned, the slots are filled by the newest store that covers each
byte. -/
theorem filledValues_eq_eager {proc : ModelAction → ProcessId} {stores : Nat → List ModelAction}
    {ticks : Nat} {xs : List Access}
    (hstores : ∀ w, w % 8 = 0 → ∀ a ∈ stores w, a.NaturallyAligned)
    (hxs : ∀ x ∈ xs, match x with | .read a | .evict a => a.NaturallyAligned) :
    filledValues proc p cutOff stores ticks xs = eager proc p cutOff stores ticks xs := by
  induction xs generalizing stores ticks with
  | nil => rfl
  | cons x xs ih =>
      have hx := hxs x List.mem_cons_self
      have htail := fun y hy => hxs y (List.mem_cons_of_mem x hy)
      cases x with
      | read a =>
          rw [filledValues, eager, ih hstores htail, resolve_eq hx (hstores _ (word_mod a))]
      | evict a =>
          rw [filledValues, eager]
          apply ih _ htail
          intro w hw b hb
          by_cases hword : w = a.word
          · subst hword
            rw [Function.update_self] at hb
            rcases List.mem_append.mp hb with hb | hb
            · exact hstores _ hw b hb
            · rw [List.mem_singleton.mp hb]
              exact hx
          · rw [Function.update_of_ne hword] at hb
            exact hstores w hw b hb

/-- A read by a thread with an empty store buffer is the loop over the store list. -/
theorem ends_run_read (hcfg : cfg.memPoison = false) (hpos : 0 < a.size)
    (hbuf : (s.threadMemory a.tid).storeBuffer = []) {r : Except Stop (List Nat)} :
    ((Access.read a).run cfg).Ends s r s' ↔
      ∃ r', (readLoop cfg a (s.getProcessId a) (s.objToWr a.word).reverse (Slots.free a.size)
          (countFree (Slots.free a.size))).Ends (s.activate a.tid) r' s' ∧
        r = r'.map fun rf => [getReadValue a.location rf] := by
  have hslots : ∀ r', (buildReadFromSlots cfg a).Ends (s.activate a.tid) r' s' ↔
      (readLoop cfg a (s.getProcessId a) (s.objToWr a.word).reverse (Slots.free a.size)
        (countFree (Slots.free a.size))).Ends (s.activate a.tid) r' s' :=
    fun _ => ends_buildReadFromSlots_of_empty (s := s.activate a.tid) hpos hcfg hbuf
  rw [Access.run, ends_update_bind, ends_bind]
  simp only [ends_buildReadFrom, ends_pure]
  constructor
  · rintro (⟨v, s₁, ⟨r', h, hv⟩, rfl, rfl⟩ | ⟨e, ⟨r', h, hv⟩, rfl⟩)
    · cases r' <;> cases hv
      exact ⟨_, (hslots _).mp h, rfl⟩
    · cases r' <;> cases hv
      exact ⟨_, (hslots _).mp h, rfl⟩
  · rintro ⟨r', h, rfl⟩
    have h := (hslots _).mpr h
    cases r' with
    | ok rf => exact .inl ⟨_, s', ⟨_, h, rfl⟩, rfl, rfl⟩
    | error e => exact .inr ⟨e, ⟨_, h, rfl⟩, rfl⟩

/-- A read answers what some cut-off would, and what it leaves open is consistent with it. -/
theorem read_sound (hcfg : cfg.memPoison = false) (h : Recovering p s)
    (ha : (Access.read a).Live s p) {r : Except Stop (List Nat)}
    (he : ((Access.read a).run cfg).Ends s r s') :
    ∃ v, r = .ok [v] ∧ Recovering p s' ∧ SameStores s s' ∧
      ∀ cutOff, s'.AdmitsAll p cutOff → s.AdmitsAll p cutOff ∧
        v = getReadValue a.location
          (fillAll (wants a) ((s.objToWr a.word).reverse.filter (survives s p (cutOff a.line)))
            (Slots.free a.size)) := by
  obtain ⟨haligned, _, hbuf⟩ := ha
  have hpos := haligned.size_pos
  obtain ⟨r', hloop, rfl⟩ := (ends_run_read hcfg hpos hbuf).mp he
  have hact := h.activate a.tid
  obtain ⟨rf, rfl, hmarks, hopen, hall⟩ :=
    cutOff_sound haligned (hact.chain _ (word_mod a)) hact.afterCrash (hact.isOpen _)
      (length_free _) (by rw [countFree_free]; omega) hloop
  have hsame : SameStores s s' := by
    obtain ⟨h₁, h₂, h₃, h₄⟩ := hmarks.sameStores
    exact ⟨h₁, h₂, h₃, h₄⟩
  refine ⟨_, rfl, hact.of_marks hmarks hopen, hsame, ?_⟩
  intro cutOff hadm
  obtain ⟨ht, hrf⟩ := hall (cutOff a.line) (hadm a.line)
  refine ⟨?_, by rw [← getReadValue_map_data, hrf, getReadValue_map_data]; rfl⟩
  intro line
  by_cases hl : line = a.line
  · rw [hl]
    exact ht
  · obtain ⟨cls, n, rfl, hcls⟩ := hmarks
    have := hadm line
    rw [show ((_ : Model).objToCl p line) = s.objToCl p line from hcls p line hl] at this
    exact this

/-- A read can answer so that a given cut-off stays possible. -/
theorem read_complete (hcfg : cfg.memPoison = false) (h : Recovering p s)
    (ha : (Access.read a).Live s p) (hadm : s.AdmitsAll p cutOff) :
    ∃ v s', ((Access.read a).run cfg).Ends s (.ok [v]) s' ∧ s'.AdmitsAll p cutOff := by
  obtain ⟨haligned, _, hbuf⟩ := ha
  have hpos := haligned.size_pos
  have hfree : countFree (Slots.free a.size) ≠ 0 := by
    rw [countFree_free]
    omega
  have hact := h.activate a.tid
  obtain ⟨rf, s', hloop, ht⟩ :=
    cutOff_complete cfg (s.getProcessId a) haligned
      (hact.chain _ (word_mod a)) hact.afterCrash (hact.isOpen _)
      (length_free _) hfree (hadm a.line)
  obtain ⟨_, hr, hmarks, _⟩ :=
    cutOff_sound haligned (hact.chain _ (word_mod a)) hact.afterCrash (hact.isOpen _)
      (length_free _) hfree hloop
  refine ⟨_, s', (ends_run_read hcfg hpos hbuf).mpr ⟨_, hloop, rfl⟩, ?_⟩
  intro line
  by_cases hl : line = a.line
  · rw [hl]
    exact ht
  · obtain ⟨cls, n, rfl, hcls⟩ := hmarks
    rw [show ((_ : Model).objToCl p line) = s.objToCl p line from hcls p line hl]
    exact hadm line

variable (cfg) in
theorem ends_run_evict (hw : a.isWrite = true) {r : Except Stop (List Nat)} :
    ((Access.evict a).run cfg).Ends s r s' ↔ r = .ok [] ∧ s' = s.evicted a := by
  rw [Access.run]
  simp [ends_bind, ends_evictStore hw, and_comm]

/-- The eviction of a store of another process keeps what the accesses rely on. -/
theorem Recovering.evicted (h : Recovering p s) (hp : s.getProcessId a ≠ p) :
    Recovering p (s.evicted a) := by
  refine ⟨h.crashed, h.backtrack, ?_, h.isOpen⟩
  intro w hw
  show StoreChain s.getProcessId p w (Function.update s.objToWr a.word _ w).reverse
  by_cases hword : w = a.word
  · subst hword
    rw [Function.update_self, List.reverse_append]
    exact .store (fun h => absurd h hp) (fun h => absurd h hp) (h.chain _ hw)
  · rw [Function.update_of_ne hword]
    exact h.chain w hw

end

/-! ## A sequence of accesses -/

section

variable {cfg : Config} {p : ProcessId} {s s' : Model} {xs : List Access} {cutOff : Nat → Nat}

theorem Access.Live.congr {x : Access} (hproc : s'.getProcessId = s.getProcessId)
    (hbuf : s'.threadMemory = s.threadMemory) (h : x.Live s p) : x.Live s' p := by
  cases x with
  | read a =>
      obtain ⟨h₁, h₂, h₃⟩ := h
      exact ⟨h₁, hproc ▸ h₂, hbuf ▸ h₃⟩
  | evict a => exact ⟨hproc ▸ h.1, h.2⟩

/-- The eager values of a sequence from state `s` on. -/
def Model.eager (s : Model) (p : ProcessId) (cutOff : Nat → Nat) (xs : List Access) : List Nat :=
  Cxlmc.eager s.getProcessId p cutOff s.objToWr s.ticks xs

def Model.filledValues (s : Model) (p : ProcessId) (cutOff : Nat → Nat) (xs : List Access) : List Nat :=
  Cxlmc.filledValues s.getProcessId p cutOff s.objToWr s.ticks xs

/-- One access, as a step of both semantics. -/
theorem access_sound (hcfg : cfg.memPoison = false) {x : Access} (h : Recovering p s)
    (hx : x.Live s p) {r : Except Stop (List Nat)} (he : (x.run cfg).Ends s r s') :
    ∃ vs, r = .ok vs ∧ Recovering p s' ∧ (∀ y : Access, y.Live s p → y.Live s' p) ∧
      ∀ cutOff, s'.AdmitsAll p cutOff → s.AdmitsAll p cutOff ∧
        ∀ xs, s.filledValues p cutOff (x :: xs) = vs ++ s'.filledValues p cutOff xs := by
  cases x with
  | read a =>
      obtain ⟨v, hr, hrec, hsame, hall⟩ := read_sound hcfg h hx he
      refine ⟨[v], hr, hrec, fun y hy => hy.congr hsame.proc hsame.buffers, ?_⟩
      intro cutOff hadm
      obtain ⟨hadm₀, hv⟩ := hall cutOff hadm
      refine ⟨hadm₀, ?_⟩
      intro xs
      rw [Model.filledValues, Model.filledValues, Cxlmc.filledValues, hsame.stores, hsame.ticks,
        hsame.proc, hv]
      rfl
  | evict a =>
      obtain ⟨hp, hw⟩ := hx
      obtain ⟨hr, rfl⟩ := (ends_run_evict _ hw).mp he
      exact ⟨[], hr, h.evicted hp, fun y hy => hy.congr rfl rfl,
        fun cutOff hadm => ⟨hadm, fun xs => rfl⟩⟩

/-- Whatever is answered, the values are those of each cut-off that is still possible. -/
theorem runAccesses_sound (hcfg : cfg.memPoison = false) (h : Recovering p s)
    (hxs : ∀ x ∈ xs, x.Live s p) {r : Except Stop (List Nat)}
    (he : (runAccesses cfg xs).Ends s r s') :
    ∃ vs, r = .ok vs ∧ Recovering p s' ∧
      ∀ cutOff, s'.AdmitsAll p cutOff → s.AdmitsAll p cutOff ∧ vs = s.filledValues p cutOff xs := by
  induction xs generalizing s r s' with
  | nil =>
      obtain ⟨rfl, rfl⟩ := ends_pure.mp he
      exact ⟨[], rfl, h, fun cutOff hadm => ⟨hadm, rfl⟩⟩
  | cons x xs ih =>
      rw [runAccesses] at he
      rcases ends_bind.mp he with ⟨vs₁, s₁, h₁, he₁⟩ | ⟨e, h₁, _⟩
      swap
      · obtain ⟨_, hr, _⟩ := access_sound hcfg h (hxs x (by simp)) h₁
        cases hr
      obtain ⟨vs₁, hr₁, hrec₁, hall₁, hsound₁⟩ := access_sound hcfg h (hxs x (by simp)) h₁
      cases hr₁
      have htail : ∀ y ∈ xs, y.Live s₁ p := fun y hy => hall₁ y (hxs y (by simp [hy]))
      rcases ends_bind.mp he₁ with ⟨vs₂, s₂, h₂, he₂⟩ | ⟨e, h₂, _⟩
      swap
      · obtain ⟨_, hr, _⟩ := ih hrec₁ htail h₂
        cases hr
      obtain ⟨vs₂, hr₂, hrec₂, hsound₂⟩ := ih hrec₁ htail h₂
      cases hr₂
      obtain ⟨rfl, rfl⟩ := ends_pure.mp he₂
      refine ⟨vs₁ ++ vs₂, rfl, hrec₂, ?_⟩
      intro cutOff hadm
      obtain ⟨hadm₁, hvs₂⟩ := hsound₂ cutOff hadm
      obtain ⟨hadm₀, hvs₁⟩ := hsound₁ cutOff hadm₁
      exact ⟨hadm₀, by rw [hvs₁, hvs₂]⟩

/-- Each cut-off survives some answers. -/
theorem runAccesses_complete (hcfg : cfg.memPoison = false) (h : Recovering p s)
    (hxs : ∀ x ∈ xs, x.Live s p) (hadm : s.AdmitsAll p cutOff) :
    ∃ vs s', (runAccesses cfg xs).Ends s (.ok vs) s' ∧ s'.AdmitsAll p cutOff := by
  induction xs generalizing s with
  | nil => exact ⟨[], s, ends_pure.mpr ⟨rfl, rfl⟩, hadm⟩
  | cons x xs ih =>
      have hx := hxs x (by simp)
      have htail : ∀ y ∈ xs, y.Live s p := fun y hy => hxs y (by simp [hy])
      have hstep : ∃ vs₁ s₁, (x.run cfg).Ends s (.ok vs₁) s₁ ∧ Recovering p s₁ ∧
          s₁.AdmitsAll p cutOff ∧ ∀ y ∈ xs, y.Live s₁ p := by
        cases x with
        | read a =>
            obtain ⟨v, s₁, h₁, hadm₁⟩ := read_complete hcfg h hx hadm
            obtain ⟨_, _, hrec₁, hsame, _⟩ := read_sound hcfg h hx h₁
            exact ⟨_, s₁, h₁, hrec₁, hadm₁,
              fun y hy => (htail y hy).congr hsame.proc hsame.buffers⟩
        | evict a =>
            have he := (ends_run_evict cfg hx.2 (s := s)).mpr ⟨rfl, rfl⟩
            exact ⟨_, _, he, h.evicted hx.1, hadm, fun y hy => (htail y hy).congr rfl rfl⟩
      obtain ⟨vs₁, s₁, h₁, hrec₁, hadm₁, hall⟩ := hstep
      obtain ⟨vs₂, s₂, h₂, hadm₂⟩ := ih hrec₁ hall hadm₁
      refine ⟨vs₁ ++ vs₂, s₂, ?_, hadm₂⟩
      exact ends_bind_ok.mpr ⟨vs₁, s₁, h₁, ends_bind_ok.mpr ⟨vs₂, s₂, h₂, ends_pure.mpr ⟨rfl, rfl⟩⟩⟩

/-- The sequence ends with the values of the cut-offs that the intervals admit. -/
theorem ends_runAccesses_iff (hcfg : cfg.memPoison = false) (h : Recovering p s)
    (hxs : ∀ x ∈ xs, x.Live s p) {r : Except Stop (List Nat)} :
    (∃ s', (runAccesses cfg xs).Ends s r s') ↔
      ∃ cutOff, s.AdmitsAll p cutOff ∧ r = .ok (s.filledValues p cutOff xs) := by
  constructor
  · rintro ⟨s', he⟩
    obtain ⟨vs, rfl, hrec', hall⟩ := runAccesses_sound hcfg h hxs he
    -- the intervals that are left are not empty
    obtain ⟨hadm, hvs⟩ := hall (fun line => (s'.objToCl p line).getBegin)
      fun line => (hrec'.isOpen line).admits
    exact ⟨_, hadm, congrArg Except.ok hvs⟩
  · rintro ⟨cutOff, hadm, rfl⟩
    obtain ⟨vs, s', he, hadm'⟩ := runAccesses_complete hcfg h hxs hadm
    obtain ⟨vs', hvs, _, hall⟩ := runAccesses_sound hcfg h hxs he
    cases hvs
    refine ⟨s', ?_⟩
    rw [← (hall cutOff hadm').2]
    exact he

/-- Where everything is naturally aligned, the two semantics of cut-offs agree. -/
theorem Model.filledValues_eq_eager (hwords : ∀ w, w % 8 = 0 → IsWordList w (s.objToWr w))
    (hxs : ∀ x ∈ xs, x.Allowed s p) : s.filledValues p cutOff xs = s.eager p cutOff xs := by
  apply Cxlmc.filledValues_eq_eager
  · intro w hw a ha
    exact (hwords w hw).aligned hw ha
  · intro x hx
    have hallowed := hxs x hx
    cases x with
    | read a => exact hallowed.1
    | evict a => exact hallowed.1

/-- The state after the crash of `p`, from what is said of its lists and intervals. -/
theorem Recovering.of_wordLists (hcrashed : s.crashes.keys = [p])
    (hbacktrack : ∀ q, s.backtrack q = true) (hwords : ∀ w, w % 8 = 0 → IsWordList w (s.objToWr w))
    (hintervals : ∀ line, (s.objToCl p line).IsOpen) : Recovering p s :=
  ⟨hcrashed, hbacktrack, fun w hw => (hwords w hw).wordChain.storeChain _ p, hintervals⟩

/-- After the crash of `p`, deciding store by store what persisted gives the same values as choosing
a cut-off for each cache line up front. -/
theorem lazy_eq_eager (hcrashed : s.crashes.keys = [p]) (hbacktrack : ∀ q, s.backtrack q = true)
    (hwords : ∀ w, w % 8 = 0 → IsWordList w (s.objToWr w))
    (hintervals : ∀ line, (s.objToCl p line).getEnd = 0 ∨
      (s.objToCl p line).getBegin < (s.objToCl p line).getEnd)
    (hxs : ∀ x ∈ xs, x.Allowed s p) :
    (∀ r s', (runAccesses .asBuilt xs).Ends s r s' → ∃ vs, r = .ok vs) ∧
    {vs | ∃ s', (runAccesses .asBuilt xs).Ends s (.ok vs) s'} =
      {vs | ∃ cutOff : Nat → Nat,
        (∀ line, (s.objToCl p line).getBegin ≤ cutOff line ∧
          ((s.objToCl p line).getEnd = 0 ∨ cutOff line < (s.objToCl p line).getEnd)) ∧
        vs = s.eager p cutOff xs} := by
  have hrec : Recovering p s := .of_wordLists hcrashed hbacktrack hwords hintervals
  have hlive : ∀ x ∈ xs, x.Live s p := fun x hx => (hxs x hx).live
  constructor
  · intro r s' he
    obtain ⟨vs, hr, _⟩ := runAccesses_sound rfl hrec hlive he
    exact ⟨vs, hr⟩
  · ext vs
    have hiff := ends_runAccesses_iff (show Config.asBuilt.memPoison = false from rfl) hrec hlive (r := .ok vs)
    show (∃ s', _) ↔ _
    rw [hiff]
    constructor
    · rintro ⟨cutOff, hadm, hvs⟩
      rw [Model.filledValues_eq_eager hwords hxs] at hvs
      exact ⟨cutOff, hadm, Except.ok.inj hvs⟩
    · rintro ⟨cutOff, hadm, hvs⟩
      rw [← Model.filledValues_eq_eager hwords hxs] at hvs
      exact ⟨cutOff, hadm, congrArg Except.ok hvs⟩

end

/-- Process 0 has crashed after a store to the first word of the memory, process 1 has written the
other half of the word. -/
def writerCrashed : Model :=
  { Model.init 2 4096 (fun _ => 0) (fun _ => .default) with
    ticks := 3
    objToWr := fun w =>
      { tid := 0, type := .atomicInit, location := w, order := .relaxed, size := 8 } ::
        if w = 4096 then
          [{ tid := 0, type := .nonatomicStore, location := 4096, value := 7, tick := 1, size := 4 },
            { tid := 1, type := .nonatomicStore, location := 4100, value := 9, tick := 2, size := 4 }]
        else []
    crashes := AList.insert 0 3 ∅ }

/-- Process 1 reads the word, overwrites part of it and reads again. -/
def readOverwriteRead : List Access :=
  [.read { tid := 1, type := .nonatomicLoad, location := 4096, size := 8 },
    .evict { tid := 1, type := .nonatomicStore, location := 4096, value := 1, size := 2 },
    .read { tid := 1, type := .nonatomicLoad, location := 4096, size := 4 }]

theorem lazy_eq_eager_writerCrashed :
    (∀ r s', (runAccesses .asBuilt readOverwriteRead).Ends writerCrashed r s' → ∃ vs, r = .ok vs) ∧
    {vs | ∃ s', (runAccesses .asBuilt readOverwriteRead).Ends writerCrashed (.ok vs) s'} =
      {vs | ∃ cutOff : Nat → Nat,
        (∀ line, (writerCrashed.objToCl 0 line).getBegin ≤ cutOff line ∧
          ((writerCrashed.objToCl 0 line).getEnd = 0 ∨
            cutOff line < (writerCrashed.objToCl 0 line).getEnd)) ∧
        vs = writerCrashed.eager 0 cutOff readOverwriteRead} := by
  refine lazy_eq_eager rfl (fun _ => rfl) ?_ (fun _ => .inl rfl) ?_
  · intro w _
    refine ⟨_, _, rfl, rfl, rfl, rfl, rfl, ?_, ?_⟩
    · intro a ha
      split at ha
      · revert a
        decide
      · cases ha
    · split <;> decide
  · intro x hx
    rcases hx with _ | ⟨_, _ | ⟨_, _ | ⟨_, hx⟩⟩⟩
    · exact ⟨by decide, by decide, rfl⟩
    · exact ⟨by decide, by decide, rfl⟩
    · exact ⟨by decide, by decide, rfl⟩
    · cases hx

end Cxlmc
