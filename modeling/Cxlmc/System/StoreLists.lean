import Cxlmc.Read.Coherence
import Cxlmc.System.Places

/-!
# The store lists over a run

The store lists of every state of a run are in order (`IsRun.listed`). In the initial value that a list
begins with a byte is what the mapping held at the start, as long as the program writes to the byte
only after an access to its word (`IsRun.byteKept`).
-/

namespace Cxlmc

open Stateful

section

variable {cfg : Config} {s s' s₁ : Model} {a : ModelAction} {e : Event} {P : Effect → Prop}
  {Q : ModelAction → Prop}

/-! ## Lists that begin with an initial value -/

/-- A step that pushes an entry of `Q` only where the list of its word has begun. -/
def BegunStep (cfg : Config) (Q : ModelAction → Prop) (s : Model) (e : Effect) (s' : Model) : Prop :=
  MemStep cfg s e s' ∧ ∀ b, e = .push b → Q b → s.objToWr b.word ≠ []

/-- Where a thread is created, the list of the word of its id has begun if `Q` holds of the store. -/
def Event.CreatesBegun (Q : ModelAction → Prop) (s : Model) : Event → Prop
  | .executed a _ _ => a.type = .pthreadCreate → ∀ b, Q b → b.type = .nonatomicStore →
      b.word = a.word → s.objToWr a.word ≠ []
  | _ => True

theorem Goes.begun (hcfg : cfg.memPoison = false)
    (hP : ∀ b, P (.push b) → Q b → s.objToWr b.word ≠ [])
    (h : Goes (MemStep cfg) P s s') : Goes (BegunStep cfg Q) P s s' := by
  have hboth : Goes (BegunStep cfg Q) P s s' ∧ ∀ b, P (.push b) → Q b → s'.objToWr b.word ≠ [] := by
    apply h.invariant (I := fun x => Goes (BegunStep cfg Q) P s x ∧
      ∀ b, P (.push b) → Q b → x.objToWr b.word ≠ []) _ ⟨.refl s, hP⟩
    intro x e y he ⟨hgoes, hlists⟩ hstep
    refine ⟨hgoes.trans (.single ⟨hstep, ?_⟩ he), ?_⟩
    · rintro b rfl hb
      exact hlists b he hb
    · intro b hb hQ
      exact hstep.objToWr_ne_nil hcfg (hlists b hb hQ)
  exact hboth.1

theorem Goes.begun_of_drains {t : ThreadId} (hcfg : cfg.memPoison = false)
    (h : Goes (MemStep cfg) (Effect.Drains t) s s') :
    Goes (BegunStep cfg Q) (Effect.Drains t) s s' :=
  Goes.begun hcfg (fun _ hb => hb.elim) h

/-- An access to a word finds its initial value recorded. -/
theorem Model.prepared_objToWr_ne_nil (s : Model) (hacc : (a.isRead || a.isWrite) = true) :
    (s.prepared a).objToWr a.word ≠ [] := by
  unfold Model.prepared
  by_cases hempty : s.objToWr a.word = []
  · rw [if_pos ⟨hacc, hempty⟩]
    show Function.update s.objToWr a.word [s.initialValue a.word] a.word ≠ []
    rw [Function.update_self]
    exact List.cons_ne_nil _ _
  · rw [if_neg fun h => hempty h.2]
    exact hempty

theorem Model.prepared_begun (s : Model)
    (hP : (a.isRead || a.isWrite) = true → P (.initial a.word)) :
    Goes (BegunStep cfg Q) P s (s.prepared a) := by
  unfold Model.prepared
  split
  · next h =>
      have hstep : MemStep cfg s (.initial a.word) (s.initialized a.word) :=
        .initial a.word (alignAddress_alignAddress _) h.2
      exact .single ⟨hstep, nofun⟩ (hP h.1)
  · exact .refl s

theorem Model.stamp_word (s : Model) (a : ModelAction) : (s.stamp a).word = a.word := by
  unfold Model.stamp
  split <;> rfl

theorem Model.stamp_isAccess (s : Model) (a : ModelAction) :
    ((s.stamp a).isRead || (s.stamp a).isWrite) = (a.isRead || a.isWrite) := by
  simp only [ModelAction.isRead, ModelAction.isWrite, s.stamp_type]

theorem isAccess_of_atomicInit {b : ModelAction} (htype : b.type = .atomicInit) :
    (b.isRead || b.isWrite) = true := by
  simp [ModelAction.isWrite, htype]

theorem SelfCrash.begun (hcfg : cfg.memPoison = false) (hcrash : P .crashSelf) (hidle : P .idle)
    (h : SelfCrash cfg s s') : Goes (BegunStep cfg Q) P s s' := by
  have hgoes : Goes (MemStep cfg) (fun e => e = .crashSelf ∨ e = .idle) s s' :=
    h.goes (.inl rfl) (.inr rfl)
  refine (Goes.begun hcfg ?_ hgoes).mono ?_
  · rintro b (hb | hb) <;> cases hb
  · rintro e (rfl | rfl)
    · exact hcrash
    · exact hidle

theorem Model.prepared_objToWr_of_ne_nil (s : Model) {w : Nat} (hw : s.objToWr w ≠ []) :
    (s.prepared a).objToWr w ≠ [] := by
  unfold Model.prepared
  split
  · next h =>
      show Function.update s.objToWr a.word [s.initialValue a.word] w ≠ []
      rw [Function.update_of_ne]
      · exact hw
      · rintro rfl
        exact hw h.2
  · exact hw

/-- `execute` in the place where `Model::action` calls it. -/
theorem Executed.begun {b : ModelAction} {ret : Ret} {v : Nat} {rf : Slots}
    (hcfg : cfg.memPoison = false) (hacc : ∀ c, Q c → (c.isRead || c.isWrite) = true)
    (hcreate : Event.CreatesBegun Q s (.executed (s.stamp b) v rf)) (hissued : Issued s.threadId b ret)
    (h : Executed cfg (s.stamp b) (s.prepared b) v rf s') :
    Goes (BegunStep cfg Q) (Effect.Executes s.threadId (s.stamp b) rf) (s.prepared b) s' := by
  obtain ⟨htid, hseq⟩ := Issued.stamped hissued
  have hgoes := h.goes htid hseq
  rw [s.prepared_threadId b] at hgoes
  refine Goes.begun hcfg ?_ hgoes
  intro c hc hQ
  cases hc with
  | push hbuf =>
      have hword : (s.stamp b).copy.word = b.word := s.stamp_word b
      rw [hword]
      apply s.prepared_objToWr_ne_nil
      rw [← s.stamp_isAccess b]
      exact hacc (s.stamp b).copy hQ
  | drains _ hfalse => exact hfalse.elim
  | createPush htype value => exact s.prepared_objToWr_of_ne_nil (hcreate htype _ hQ rfl rfl)

theorem ExitPath.begun {s₂ : Model} (hcfg : cfg.memPoison = false)
    (hacc : ∀ c, Q c → (c.isRead || c.isWrite) = true) (hplaced : s.Placed)
    (h : ExitPath cfg s s₁) (hs₂ : s₂.crashes = s₁.crashes) :
    Goes (BegunStep cfg Q) (Event.Allows s s₂ .exited) s s₁ := by
  cases h with
  | @execute b ret s₃ s₄ _ hctx hfence hpush h hcrash =>
      have hne : s₂.crashes ≠ ∅ := hs₂ ▸ hcrash.crashes_ne
      have hprepared : Goes (BegunStep cfg Q) (Event.Allows s s₂ .exited) s (s.prepared b) :=
        s.prepared_begun fun _ => .exitInitial hctx hne
      -- the action is pushed, unless the process has crashed before it
      have hpushed : Goes (BegunStep cfg Q) (Event.Allows s s₂ .exited) s s₃ := by
        rcases hpush with rfl | ⟨hbuf, rfl⟩
        · exact hprepared
        · have hholds := hplaced.holds s.threadId
          rw [hctx] at hholds
          have hself := s.prepared_threadId b
          have hstep : MemStep cfg (s.prepared b) (.push b.copy)
              ((s.prepared b).pushed (s.prepared b).threadId b.copy) :=
            .push b.copy (hholds.tid_eq.1.trans hself.symm) hholds.tid_eq.2.1 hbuf rfl
          rw [hself] at hstep
          refine hprepared.trans (.single ⟨hstep, ?_⟩ (.exitPush hctx hne hbuf))
          rintro c he hQ
          cases he
          exact s.prepared_objToWr_ne_nil (hacc b.copy hQ)
      refine hpushed.trans (Goes.trans ((Goes.begun_of_drains hcfg h).mono ?_)
        (hcrash.begun hcfg (.exitCrash hne) .idle))
      exact fun e he => .exitDrains hctx hfence hne he
  | quiet _ h =>
      have hstep : MemStep cfg s .yield s₁ := .yield h.toControl
      exact .single ⟨hstep, nofun⟩ .yield
  | @insertCrash s₃ _ _ h hcrash =>
      have hne : s₂.crashes ≠ ∅ := hs₂ ▸ hcrash.crashes_ne
      have hstep : MemStep cfg s .idle s₃ := .idle h
      exact (Goes.single ⟨hstep, nofun⟩ .idle).trans (hcrash.begun hcfg (.exitCrash hne) .idle)
  | @pop mem n v ret _ hctx h =>
      obtain ⟨s₃, h, hcrash⟩ := (hplaced.pop_does cfg _ mem).leaves h
      have hne : s₂.crashes ≠ ∅ := hs₂ ▸ hcrash.crashes_ne
      have hset : MemStep cfg s .yield (s.setContext s.threadId (.popping mem n v ret)) :=
        .yield (Model.MovesTo.setContext s (.popping mem n v ret)).toControl
      refine (Goes.single ⟨hset, nofun⟩ .yield).trans ?_
      refine Goes.trans ((Goes.begun_of_drains hcfg h).mono ?_)
        (hcrash.begun hcfg (.exitCrash hne) .idle)
      exact fun e he => .exitPops hctx hne he
  | @shutdown s₃ _ hctx h hend =>
      have hloop : Goes (BegunStep cfg Q) (Effect.ShutsDown s) s s₃ := by
        refine Goes.begun hcfg ?_ h
        rintro b ⟨_, _, _, hfalse⟩
        exact hfalse.elim
      refine Goes.trans (hloop.mono fun e he => .exitShutdown hctx he) ?_
      rcases hend with hidle | hcrash
      · have hstep : MemStep cfg s₃ .idle s₁ := .idle hidle
        exact .single ⟨hstep, nofun⟩ .idle
      · exact hcrash.begun hcfg (.exitCrash (hs₂ ▸ hcrash.crashes_ne)) .idle

/-- A step of the checker pushes an access only where the list of its word has begun, and the id of a
new thread wherever it is to be stored. -/
theorem StepCase.begun (hcfg : cfg.memPoison = false)
    (hacc : ∀ c, Q c → (c.isRead || c.isWrite) = true) (hcreate : e.CreatesBegun Q s)
    (hplaced : s.Placed) (h : StepCase cfg s e s') :
    Goes (BegunStep cfg Q) (Event.Allows s s' e) s s' := by
  have hgoes := h.goes hplaced
  have hholds := hplaced.holds s.threadId
  cases h with
  | @executed b ret v n rf t s₁ _ hctx h h' =>
      rw [hctx] at hholds
      have hprepared : Goes (BegunStep cfg Q) (Event.Allows s s' (.executed (s.stamp b) v rf)) s
          (s.prepared b) := by
        apply s.prepared_begun
        intro hacc
        rw [← s.stamp_word b]
        apply Event.Allows.initial
        rw [s.stamp_isAccess b]
        exact hacc
      have hexec := h.begun hcfg hacc hcreate hholds
      refine hprepared.trans ((hexec.mono fun _ => .executes).trans ?_)
      have hstep : MemStep cfg s₁ .yield s' := .yield h'.toControl
      exact .single ⟨hstep, nofun⟩ .yield
  | @exited s₁ _ hpath h =>
      have hcrashes : s'.crashes = s₁.crashes := congrArg Memory.crashes h.memory
      have hstep : MemStep cfg s₁ .yield s' := .yield h.toControl
      exact (hpath.begun hcfg hacc hplaced hcrashes).trans (.single ⟨hstep, nofun⟩ .yield)
  | resumed _ h =>
      have hstep : MemStep cfg s .yield s' := .yield h.toControl
      exact .single ⟨hstep, nofun⟩ .yield
  | popped _ _ =>
      refine Goes.begun hcfg ?_ hgoes
      intro b hb
      cases hb with
      | pops h => exact h.elim
  | _ =>
      refine Goes.begun hcfg ?_ hgoes
      intro b hb
      cases hb

/-- An `ATOMIC_INIT` is pushed only where the list of its word has begun. -/
theorem StepCase.begun_init (hcfg : cfg.memPoison = false) (hplaced : s.Placed)
    (h : StepCase cfg s e s') :
    Goes (BegunStep cfg fun b => b.type = .atomicInit) (Event.Allows s s' e) s s' := by
  apply h.begun hcfg (fun _ => isAccess_of_atomicInit) _ hplaced
  cases e with
  | executed a v rf =>
      intro _ b hinit htype
      rw [hinit] at htype
      cases htype
  | _ => trivial

theorem StepCase.opened (hcfg : cfg.memPoison = false) (hplaced : s.Placed)
    (h : StepCase cfg s e s') (ho : s.Opened) : s'.Opened := by
  apply (h.begun_init hcfg hplaced).invariant (I := Model.Opened) _ ho
  rintro x ef y _ hx ⟨hstep, hpush⟩
  exact hstep.opened hcfg hpush hx

/-! ## The initial value of a word -/

/-- The program writes to the byte of the word only after an access to the word has recorded its initial value:
a store that covers the byte begins in the word, and `pthread_create` writes a thread id there only where the
list of the word has begun. -/
def Event.KeepsByte (s : Model) (word addr : Nat) : Event → Prop
  | .executed a _ _ =>
      (a.isWrite = true → a.Covers addr → a.word = word) ∧
        (a.type = .pthreadCreate → a.location ≤ addr → addr < a.location + 4 → s.objToWr word ≠ [])
  | _ => True

namespace Model

/-- What the byte held at the start is in the mapping until the word is recorded, and then in its list. -/
structure ByteKept (memory : Nat → Nat) (word addr : Nat) (s : Model) : Prop where
  fresh : s.objToWr word = [] → s.memory addr &&& 0xff = memory addr &&& 0xff
  head : ∀ a rest, s.objToWr word = a :: rest → a.type = .atomicInit →
    a.byteAt addr = memory addr &&& 0xff

/-- A store that is about to write to the byte itself has been executed, so the list of the word has
begun. -/
def WritesFollow (word addr : Nat) (s : Model) : Prop :=
  ∀ t mem v loc size val, (s.contextOf t).isPopping mem v (.rawStore loc size val) →
    loc ≤ addr → addr < loc + size → s.objToWr word ≠ []

end Model

theorem MemStep.memory_eq {e : Effect} (hcfg : cfg.memPoison = false) (h : MemStep cfg s e s')
    (he : ∀ loc size, e ≠ .write loc size) : s'.memory = s.memory := by
  cases h with
  | idle h => exact congrArg Memory.memory h.memory
  | yield h => exact congrArg Memory.memory h.memory
  | read action rf htid hpos hread =>
      have hmem := congrArg Memory.memory (buildReadFromSlots_observes hpos hcfg hread).memory
      exact hmem
  | write loc size val => exact absurd rfl (he loc size)
  | _ => rfl

theorem MemStep.byteKept {memory : Nat → Nat} {word addr : Nat} {e : Effect}
    (hcfg : cfg.memPoison = false) (h : MemStep cfg s e s') (hlo : word ≤ addr)
    (hhi : addr < word + 8)
    (hwrite : ∀ loc size, e = .write loc size → loc ≤ addr → addr < loc + size →
      s.objToWr word ≠ [])
    (ho : s.Opened) (hk : s.ByteKept memory word addr) : s'.ByteKept memory word addr := by
  constructor
  · intro hempty
    have hbefore : s.objToWr word = [] := by
      by_contra hne
      exact h.objToWr_ne_nil hcfg hne hempty
    rw [← hk.fresh hbefore]
    by_cases he : ∃ loc size, e = .write loc size
    · obtain ⟨loc, size, rfl⟩ := he
      cases h with
      | write _ _ val =>
          -- the write is to other bytes
          show Model.writeRaw s.memory loc size val addr &&& 0xff = _
          rw [Model.writeRaw, if_neg fun hin => hwrite loc size rfl hin.1 hin.2 hbefore]
    · rw [h.memory_eq hcfg fun loc size heq => he ⟨loc, size, heq⟩]
  · intro a rest hlist htype
    cases h.head hcfg hlist with
    | kept rest' hold => exact hk.head a rest' hold htype
    | evicted t b hmem _ hword hempty heq =>
        subst hword heq
        exact absurd hempty (ho.buffered t b hmem htype)
    | initial hempty heq =>
        subst heq
        rw [byteAt_initialValue s hlo hhi]
        exact hk.fresh hempty

/-- The program writes to the mapping at the end of a store and in `PTHREAD_CREATE`. -/
theorem StepCase.byteKept {memory : Nat → Nat} {word addr : Nat} (hcfg : cfg.memPoison = false)
    (hplaced : s.Placed) (h : StepCase cfg s e s') (hlo : word ≤ addr) (hhi : addr < word + 8)
    (hkeeps : e.KeepsByte s word addr) (hfollow : s.WritesFollow word addr) (ho : s.Opened)
    (hk : s.ByteKept memory word addr) : s'.ByteKept memory word addr := by
  have hwrite : ∀ loc size, Event.Allows s s' e (.write loc size) → loc ≤ addr →
      addr < loc + size → s.objToWr word ≠ [] := by
    intro loc size hallowed hle hlt
    cases hallowed with
    | executes hexec =>
        cases hexec with
        | drains _ hfalse => exact hfalse.elim
        | createWrite htype => exact hkeeps.2 htype hle hlt
    | pops hfalse => exact hfalse.elim
    | wrote hctx => exact hfollow s.threadId _ _ _ _ _ ⟨0, hctx⟩ hle hlt
    | exitDrains _ _ _ hfalse => exact hfalse.elim
    | exitPops _ _ hfalse => exact hfalse.elim
    | exitShutdown _ hfalse =>
        obtain ⟨_, _, _, hfalse⟩ := hfalse
        exact hfalse.elim
  have hall : s'.Opened ∧ s'.ByteKept memory word addr ∧
      (s.objToWr word ≠ [] → s'.objToWr word ≠ []) := by
    apply (h.begun_init hcfg hplaced).invariant (I := fun x => x.Opened ∧
      x.ByteKept memory word addr ∧ (s.objToWr word ≠ [] → x.objToWr word ≠ [])) _ ⟨ho, hk, id⟩
    rintro x ef y hallowed ⟨hx, hkx, hgrows⟩ ⟨hstep, hpush⟩
    refine ⟨hstep.opened hcfg hpush hx, hstep.byteKept hcfg hlo hhi ?_ hx hkx, ?_⟩
    · rintro loc size rfl hle hlt
      exact hgrows (hwrite loc size hallowed hle hlt)
    · intro hne
      exact hstep.objToWr_ne_nil hcfg (hgrows hne)
  exact hall.2.1

theorem not_isAccess_of_isSync (hsync : a.isSync = true) : (a.isRead || a.isWrite) = false :=
  not_access_of_isControl (ModelAction.isControl_of_isSync hsync)

/-- The list of a word that was accessed has begun. -/
theorem StepCase.objToWr_ne_nil {v : Nat} {rf : Slots} (hcfg : cfg.memPoison = false)
    (hplaced : s.Placed) (h : StepCase cfg s (.executed a v rf) s')
    (hacc : (a.isRead || a.isWrite) = true) : s'.objToWr a.word ≠ [] := by
  have hholds := hplaced.holds s.threadId
  cases h with
  | @executed b ret _ n _ t s₁ _ hctx h h' =>
      rw [hctx] at hholds
      rw [s.stamp_word b]
      rw [s.stamp_isAccess b] at hacc
      obtain ⟨htid, hseq⟩ := Issued.stamped hholds
      have hlist : s'.objToWr = s₁.objToWr := congrArg Memory.objToWr h'.memory
      rw [hlist]
      exact Goes.objToWr_ne_nil hcfg (h.goes htid hseq) (s.prepared_objToWr_ne_nil hacc)
  | resumed hctx h =>
      rw [hctx] at hholds
      rw [not_isAccess_of_isSync hholds.1] at hacc
      cases hacc

/-- A store is executed, and so its word recorded, before the program writes to the mapping. -/
theorem StepCase.writesFollow {word addr : Nat} (hcfg : cfg.memPoison = false) (hplaced : s.Placed)
    (h : StepCase cfg s e s') (hkeeps : e.KeepsByte s word addr) (hfollow : s.WritesFollow word addr) :
    s'.WritesFollow word addr := by
  intro t mem v loc size val hpop hle hlt
  rcases h.popping hcfg hplaced hpop with hpop | ⟨rfl, b, hissued, rf, rfl⟩
  · exact Goes.objToWr_ne_nil hcfg (h.goes hplaced) (hfollow t mem v loc size val hpop hle hlt)
  · obtain ⟨hw, rfl, rfl, _⟩ := hissued.rawStore
    have hloc : (s.stamp b).location = b.location := by
      unfold Model.stamp
      split <;> rfl
    have hstamped : (s.stamp b).isWrite = true := by
      rw [← hw]
      simp only [ModelAction.isWrite, s.stamp_type]
    have hcovers : (s.stamp b).Covers addr := by
      rw [ModelAction.Covers, hloc, s.stamp_size b]
      exact ⟨hle, hlt⟩
    rw [← hkeeps.1 hstamped hcovers]
    apply h.objToWr_ne_nil hcfg hplaced
    rw [hstamped, Bool.or_true]

/-! ## Runs -/

variable {n cxlMapping : Nat} {memory : Nat → Nat} {mutexType : MutexId → MutexType}
  {tr : List (Model × Label)}

/-- The store lists of a run are in order. -/
structure Model.Listed (s : Model) : Prop where
  recorded : s.Recorded
  sorted : s.Sorted
  clocksUnique : s.ClocksUnique
  opened : s.Opened

theorem StepCase.listed (hcfg : cfg.memPoison = false) (hplaced : s.Placed)
    (h : StepCase cfg s e s') (hl : s.Listed) : s'.Listed :=
  ⟨h.recorded hcfg hplaced hl.recorded, Goes.sorted hcfg (h.goes hplaced) hl.recorded hl.sorted,
    Goes.clocksUnique hcfg (h.goes hplaced) hl.recorded hl.clocksUnique,
    h.opened hcfg hplaced hl.opened⟩

theorem Model.listed_init (hn : 1 ≤ n) : (Model.init n cxlMapping memory mutexType).Listed :=
  ⟨Model.recorded_init hn, Model.sorted_init, Model.clocksUnique_init, Model.opened_init⟩

theorem Model.writesFollow_init {word addr : Nat} :
    (Model.init n cxlMapping memory mutexType).WritesFollow word addr := by
  rintro t mem v loc size val ⟨_, hpop⟩
  cases hpop

theorem Model.byteKept_init {word addr : Nat} :
    (Model.init n cxlMapping memory mutexType).ByteKept memory word addr := by
  constructor
  · intro _
    rfl
  · intro a rest hlist
    cases hlist

/-- Every step of a run is taken from a state whose lists are in order. -/
theorem IsRun.listed (hcfg : cfg.memPoison = false)
    (h : IsRun cfg n cxlMapping memory mutexType tr s') :
    (∀ x ∈ stepsOf tr s', x.1.Placed ∧ x.1.Listed ∧ x.2.1.tid = x.1.threadId ∧
      StepCase cfg x.1 x.2.1.event x.2.2) ∧ s'.Placed ∧ s'.Listed :=
  h.invariant hcfg (Model.listed_init h.1) fun _ _ _ _ hplaced hl _ hcase =>
    hcase.listed hcfg hplaced hl

/-- As long as the program keeps a byte, what the byte was at the start can be read back. -/
theorem IsRun.byteKept {word addr : Nat} (hcfg : cfg.memPoison = false)
    (h : IsRun cfg n cxlMapping memory mutexType tr s') (hlo : word ≤ addr) (hhi : addr < word + 8)
    (hkeeps : ∀ x ∈ stepsOf tr s', x.2.1.event.KeepsByte x.1 word addr) :
    (∀ x ∈ stepsOf tr s', x.1.ByteKept memory word addr) ∧ s'.ByteKept memory word addr := by
  obtain ⟨hall, _, _, _, hlast⟩ := h.invariant hcfg
    (P := fun s => s.Opened ∧ s.WritesFollow word addr ∧ s.ByteKept memory word addr)
    ⟨Model.opened_init, Model.writesFollow_init, Model.byteKept_init⟩ (by
    rintro s l s₁ hmem hplaced ⟨ho, hfollow, hk⟩ _ hcase
    have hkeep := hkeeps _ hmem
    exact ⟨hcase.opened hcfg hplaced ho, hcase.writesFollow hcfg hplaced hkeep hfollow,
      hcase.byteKept hcfg hplaced hlo hhi hkeep hfollow ho hk⟩)
  refine ⟨?_, hlast⟩
  intro x hx
  exact (hall x hx).2.1.2.2

end

end Cxlmc
