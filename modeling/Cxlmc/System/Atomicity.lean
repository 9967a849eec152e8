import Cxlmc.System.ProgramOrder

/-!
# Atomicity of read-modify-writes

The store of an `ATOMIC_RMW` comes right after the stores that its `ATOMIC_RMWR` has read, byte by byte,
unless `process_store_buffer` has evicted a store of another thread to the byte in between
(`rmw_atomic`). It may: `rmw_not_atomic` loses an update.
-/

namespace Cxlmc

open Stateful Fill

section

variable {cfg : Config} {s s' s₁ : Model} {e : Effect} {P : Effect → Prop} {t : ThreadId} {w : Nat}
  {c : ModelAction}

/-! ## The lists grow at their ends -/

theorem MemStep.objToWr_prefix (hcfg : cfg.memPoison = false) (h : MemStep cfg s e s') (w : Nat) :
    s.objToWr w <+: s'.objToWr w := by
  cases h.list hcfg w with
  | kept heq => rw [heq]
  | evicted _ _ _ _ _ _ _ heq =>
      rw [heq]
      exact List.prefix_append _ _
  | initial _ _ hempty _ =>
      rw [hempty]
      exact List.nil_prefix

theorem Goes.objToWr_prefix (hcfg : cfg.memPoison = false) (h : Goes (MemStep cfg) P s s') (w : Nat) :
    s.objToWr w <+: s'.objToWr w := by
  apply h.invariant (I := fun x => s.objToWr w <+: x.objToWr w) _ (List.prefix_refl _)
  intro x e y _ hx hstep
  exact hx.trans (hstep.objToWr_prefix hcfg w)

/-! ## What a pop and a fence evict -/

/-- The store `b` has been evicted to the list of its word. -/
def Model.Evicts (s s' : Model) (b : ModelAction) : Prop :=
  s'.objToWr = Function.update s.objToWr b.word
    (s.objToWr b.word ++ [{ b with tick := s.ticks }])

theorem Goes.objToWr_of_settles (hcfg : cfg.memPoison = false)
    (h : Goes (MemStep cfg) (Effect.Settles t) s s') : s'.objToWr = s.objToWr := by
  apply h.invariant (I := fun x => x.objToWr = s.objToWr) _ rfl
  intro x e y he hx hstep
  rw [hstep.objToWr hcfg, ← hx]
  cases e <;> first | rfl | exact he.elim

/-- `pop_from_store_buffer` evicts the first entry of the buffer, if it is a store. -/
theorem popFromStoreBuffer_evicts (hcfg : cfg.memPoison = false) (hseq : s.Unclocked t)
    (h : (popFromStoreBuffer t).Ends s (.ok ()) s') :
    s'.objToWr = s.objToWr ∨ ∃ b rest, (s.threadMemory t).storeBuffer = b :: rest ∧
      b.isWrite = true ∧ s.Evicts s' b := by
  cases hbuf : (s.threadMemory t).storeBuffer with
  | nil =>
      rw [popFromStoreBuffer, ends_state_bind, hbuf] at h
      obtain ⟨_, rfl⟩ := ends_pure.mp h
      exact .inl rfl
  | cons b rest =>
      obtain ⟨k, s₁, ⟨⟨e, he, hstep⟩, hk⟩, hends⟩ :=
        ends_popFromStoreBuffer cfg hseq hbuf (by simp) h
      have hrest := Goes.objToWr_of_settles hcfg (hk.returns hends)
      unfold Model.Evicts
      rw [hrest, hstep.objToWr hcfg]
      cases hstep with
      | popStore u d _ _ hw =>
          obtain ⟨rfl, rfl⟩ := he
          exact .inr ⟨d, rest, rfl, hw, rfl⟩
      | popClflush _ _ _ _ _ => exact .inl rfl
      | popClflushopt _ _ _ _ _ => exact .inl rfl
      | popSfence _ _ _ _ _ => exact .inl rfl
      | _ => exact he.elim

/-- A fence of a thread with one store in its buffer evicts this store. -/
theorem Drained.evicts (hcfg : cfg.memPoison = false) (h : Drained cfg t s s')
    (hbuf : (s.threadMemory t).storeBuffer = [c]) (hw : c.isWrite = true) : s.Evicts s' c := by
  have hall : (s'.objToWr = s.objToWr ∧ s'.ticks = s.ticks ∧
        (s'.threadMemory t).storeBuffer = [c]) ∨
      s.Evicts s' c ∧ (s'.threadMemory t).storeBuffer = [] := by
    -- until the entry is popped nothing is evicted, and afterwards the buffer is empty
    apply h.goes.invariant (I := fun x => (x.objToWr = s.objToWr ∧
        x.ticks = s.ticks ∧ (x.threadMemory t).storeBuffer = [c]) ∨
      s.Evicts x c ∧ (x.threadMemory t).storeBuffer = []) _ (.inl ⟨rfl, rfl, hbuf⟩)
    intro x e y he hx hstep
    have hlists := hstep.objToWr hcfg
    have hclock := hstep.ticks hcfg
    have hafter := hstep.storeBuffer hcfg t
    have htaken : ∀ {u b}, e.taken = some (u, b) → u = t →
        (x.objToWr = s.objToWr ∧ x.ticks = s.ticks ∧
          (x.threadMemory t).storeBuffer = [c]) ∧ b = c := by
      rintro u b htaken rfl
      obtain ⟨rest, hrest⟩ := hstep.taken htaken
      rcases hx with hx | ⟨_, hempty⟩
      · rw [hx.2.2] at hrest
        cases hrest
        exact ⟨hx, rfl⟩
      · rw [hempty] at hrest
        cases hrest
    have hnoStore : ∀ {type : ActionType}, c.type = type →
        ({ c with type := type }).isWrite = false → False := by
      rintro type rfl hnot
      rw [hw] at hnot
      cases hnot
    cases e with
    | popStore u b =>
        obtain ⟨⟨hl, hn, hb⟩, rfl⟩ := htaken rfl he
        obtain rfl : u = t := he
        refine .inr ⟨?_, ?_⟩
        · rw [Model.Evicts, hlists, Effect.objToWr, hl, hn]
        · rw [hafter, Effect.storeBuffer, if_pos rfl, hb]
          rfl
    | popClflush u b =>
        obtain ⟨_, rfl⟩ := htaken rfl he
        cases hstep with
        | popClflush _ _ _ _ htype => exact (hnoStore htype rfl).elim
    | popClflushopt u b =>
        obtain ⟨_, rfl⟩ := htaken rfl he
        cases hstep with
        | popClflushopt _ _ _ _ htype => exact (hnoStore htype rfl).elim
    | popSfence u b =>
        obtain ⟨_, rfl⟩ := htaken rfl he
        cases hstep with
        | popSfence _ _ _ _ htype => exact (hnoStore htype rfl).elim
    | initial _ => exact he.elim
    | push _ => exact he.elim
    | _ =>
        rcases hx with ⟨hl, hn, hb⟩ | ⟨hev, hb⟩
        · exact .inl ⟨hlists.trans hl, hclock.trans hn, hafter.trans hb⟩
        · exact .inr ⟨hlists.trans hev, hafter.trans hb⟩
  -- a drained buffer is empty
  rcases hall with ⟨_, _, hfull⟩ | ⟨hev, _⟩
  · rw [h.storeBuffer] at hfull
    cases hfull
  · exact hev

end

/-! ## Between the halves -/

/-- The place of a thread that has read `size` bytes at `addr` and is about to write them. -/
inductive Context.Between (addr size : Nat) : Context → Prop where
  | popping {mem : ThreadId} {n v : Nat} {r : Rmw} (haddr : r.addr = addr) (hsize : r.size = size) :
      Between addr size (.popping mem n v (.rmw r))
  | ready {a : ModelAction} {ret : Ret} (hloc : a.location = addr) (hsize : a.size = size) :
      Between addr size (.ready a ret)

/-- The step is to evict a store that covers the byte `addr` to the list of `word`. -/
def Event.EvictsTo (s : Model) (word addr : Nat) : Event → Prop
  | .popped mem => ∃ b rest, (s.threadMemory mem).storeBuffer = b :: rest ∧ b.isWrite = true ∧
      b.word = word ∧ b.Covers addr
  | _ => False

/-- No store in the list of `word` that covers the byte `addr` comes after `d`. -/
def Model.LastIs (s : Model) (word addr : Nat) (d : ModelAction) : Prop :=
  ∃ older newer, s.objToWr word = older ++ d :: newer ∧ ∀ b ∈ newer, ¬ b.Covers addr

section

variable {cfg : Config} {s s' s₁ : Model} {e : Event} {a b d : ModelAction} {v : Nat} {rf : Slots}
  {word addr : Nat}

theorem Model.LastIs.of_eq (h : s.LastIs word addr d) (hlist : s'.objToWr = s.objToWr) :
    s'.LastIs word addr d := by
  unfold Model.LastIs
  rw [hlist]
  exact h

/-- A store that is evicted to another list or does not cover the byte changes nothing. -/
theorem Model.LastIs.evicts (h : s.LastIs word addr d) (he : s.Evicts s' b)
    (hnot : b.word = word → ¬ b.Covers addr) : s'.LastIs word addr d := by
  obtain ⟨older, newer, hlist, hnewer⟩ := h
  by_cases hword : b.word = word
  · subst hword
    refine ⟨older, newer ++ [{ b with tick := s.ticks }], ?_, ?_⟩
    · rw [he, Function.update_self, hlist, List.append_assoc, List.cons_append]
    · intro c hc
      rcases List.mem_append.mp hc with hc | hc
      · exact hnewer c hc
      · rw [List.mem_singleton.mp hc]
        exact hnot rfl
  · refine ⟨older, newer, ?_, hnewer⟩
    rw [he, Function.update_of_ne (Ne.symm hword)]
    exact hlist

/-- What an `ATOMIC_RMWR` reads from is the last store of its byte. -/
theorem Executed.lastIs (hcfg : cfg.memPoison = false) (htype : a.type = .atomicRmwr)
    (htid : a.tid = s.threadId) (hpos : 0 < a.size) (hcrash : s'.crashes = ∅)
    (h : Executed cfg a s v rf s') {i : Nat} (hi : i < a.size) :
    ∃ d, rf[i]? = some (some d) ∧ s'.LastIs a.word (a.location + i) d := by
  have hload : a.isLoad = true := by simp [ModelAction.isLoad, htype]
  obtain ⟨s₁, s₂, s₃, hdrain, hidle, hread, hidle', _⟩ := h.load_parts hload
  rw [if_pos htype] at hdrain
  have hcrash₃ : s₃.crashes = ∅ := by
    rw [← hcrash, hidle'.memory]
  have hlists : s'.objToWr = s₂.objToWr := by
    have hafter : s'.objToWr = s₃.objToWr := congrArg Memory.objToWr hidle'.memory
    rw [hafter, hread.objToWr hcfg]
    rfl
  cases hread with
  | read _ _ _ _ hends =>
      obtain ⟨hrf, hfull⟩ := buildReadFromSlots_crashFree hpos hcfg hcrash₃ hends
      rw [bypassed, ← fillAll_append] at hrf
      obtain ⟨d, hfind, hslot⟩ := getElem?_filled hrf hfull hi
      have hempty : (s₂.threadMemory a.tid).storeBuffer = [] := by
        rw [htid, hidle.memory]
        exact hdrain.storeBuffer
      rw [hempty, List.reverse_nil, List.filter_nil, List.nil_append] at hfind
      refine ⟨d, hslot, Model.LastIs.of_eq ?_ hlists⟩
      obtain ⟨_, newer, older, hlist, hnewer⟩ := List.find?_eq_some_iff_append.mp hfind
      refine ⟨older.reverse, newer.reverse, ?_, ?_⟩
      · rw [← List.reverse_reverse (s₂.objToWr a.word), hlist]
        simp
      · intro b hb hcovers
        have hnot := hnewer b (List.mem_reverse.mp hb)
        rw [wants_of_covers hi hcovers] at hnot
        cases hnot

theorem secondHalf_location (r : Rmw) (tid : ThreadId) (old : Nat) :
    (r.secondHalf tid old).1.location = r.addr ∧ (r.secondHalf tid old).1.size = r.size := by
  unfold Rmw.secondHalf
  split <;> exact ⟨rfl, rfl⟩

/-- A step that leaves the running thread between the halves is the `ATOMIC_RMWR` itself, or keeps what
was read the last unless it evicts a store. -/
theorem MidStep.lastIs (hcfg : cfg.memPoison = false) (hplaced : s.Placed) (h : MidStep cfg s e s')
    (hcrash : s'.crashes = ∅) :
    (∃ a v rf, e = .executed a v rf ∧ a.type = .atomicRmwr ∧
      (s'.contextOf s.threadId).Between a.location a.size ∧
      ∀ i, i < a.size → ∃ d, rf[i]? = some (some d) ∧ s'.LastIs a.word (a.location + i) d) ∨
    (s.contextOf s.threadId).isMidRmw = true ∧
      (∀ addr size, (s.contextOf s.threadId).Between addr size →
        (s'.contextOf s.threadId).Between addr size) ∧
      ∀ word addr d, ¬ e.EvictsTo s word addr → s.LastIs word addr d → s'.LastIs word addr d := by
  have hholds := hplaced.holds s.threadId
  cases h with
  | @read b r v n rf mem s₁ _ hctx htype h hself h' =>
      rw [hctx] at hholds
      obtain ⟨htid, _⟩ := Issued.stamped hholds
      obtain ⟨_, hloc, hsize, hpos⟩ := hholds.rmwr
      -- an RMW has got its number already
      have hb : s.stamp b = b := by
        rw [Model.stamp, if_neg]
        rw [htype]
        exact ActionType.noConfusion
      rw [hb] at h htid ⊢
      have hplace : s'.contextOf s.threadId = .popping mem n v (.rmw r) := by
        rw [← hself]
        exact h'.context
      have hcrash₁ : s₁.crashes = ∅ := by
        rw [← hcrash, h'.memory]
      refine .inl ⟨b, v, rf, rfl, htype, ?_, ?_⟩
      · rw [hplace]
        exact .popping hloc.symm hsize.symm
      · intro i hi
        obtain ⟨d, hslot, hlast⟩ := h.lastIs hcfg htype htid (hsize ▸ hpos) hcrash₁ hi
        exact ⟨d, hslot, hlast.of_eq (congrArg Memory.objToWr h'.memory)⟩
  | @popped mem n v r _ hctx h hctx' =>
      right
      rw [hctx, hctx']
      refine ⟨rfl, ?_, ?_⟩
      · intro addr size hbetween
        cases hbetween with
        | popping haddr hsize => exact .popping haddr hsize
      · intro word addr d hnot hlast
        have hset := Model.MovesTo.setContext s (.popping mem n v (.rmw r))
        have hlast₁ : (s.setContext s.threadId (.popping mem n v (.rmw r))).LastIs word addr d := hlast
        have hseq : (s.setContext s.threadId (.popping mem n v (.rmw r))).Unclocked mem :=
          hplaced.unclocked mem
        -- what leaves the buffer does not write the byte
        rcases popFromStoreBuffer_evicts hcfg hseq h with hsame | ⟨b, rest, hbuf, hw, hevicts⟩
        · exact hlast₁.of_eq hsame
        · apply hlast₁.evicts hevicts
          intro hword hcovers
          exact hnot ⟨b, rest, hbuf, hw, hword, hcovers⟩
  | @secondHalf mem v r a ret _ hctx ha h =>
      right
      rw [hctx, h.context]
      refine ⟨rfl, ?_, ?_⟩
      · intro addr size hbetween
        -- the second half is a call, which changes no list
        obtain ⟨hloc, hsize⟩ := secondHalf_location r s.threadId (toUint r.size v)
        rw [ha] at hloc hsize
        cases hbetween with
        | popping haddr hsize' => exact .ready (hloc.trans haddr) (hsize.trans hsize')
      · intro word addr d _ hlast
        exact hlast.of_eq (congrArg Memory.objToWr h.memory)

/-- The second half puts its store at the end of the list of its word. -/
theorem StepCase.rmw_evicts (hcfg : cfg.memPoison = false) (hplaced : s.Placed)
    (h : StepCase cfg s (.executed b v rf) s') (htype : b.type = .atomicRmw) (hheld : s.RmwHeld) :
    (s.contextOf s.threadId).isMidRmw = true ∧
      (∀ addr size, (s.contextOf s.threadId).Between addr size →
        b.location = addr ∧ b.size = size) ∧
      (s.objToWr b.word ≠ [] → s.Evicts s' b) := by
  have hholds := hplaced.holds s.threadId
  generalize hev : Event.executed b v rf = e at h
  cases h with
  | @executed c ret _ n _ t s₁ _ hctx h h' =>
      cases hev
      rw [hctx] at hholds
      have hc : s.stamp c = c := by
        rw [s.stamp_type] at htype
        rw [Model.stamp, if_neg]
        rw [htype]
        exact ActionType.noConfusion
      rw [hc] at h htype ⊢
      have hmid : (s.contextOf s.threadId).isMidRmw = true := by
        rw [hctx]
        simp [Context.isMidRmw, ModelAction.isSecondPartOfRmw, htype]
      refine ⟨hmid, ?_, ?_⟩
      · intro addr size hbetween
        rw [hctx] at hbetween
        cases hbetween with
        | ready hloc hsize => exact ⟨hloc, hsize⟩
      · intro hlist
        have hprepared : s.prepared c = s := if_neg fun h => hlist h.2
        have hcopy : c.copy = c := by
          rw [ModelAction.copy, ← hholds.tid_eq.2.2]
        have hw : c.isWrite = true := by simp [ModelAction.isWrite, htype]
        -- the RMW holds its buffer empty, so that its store is the only entry
        have hempty := (hheld _ hmid).2.storeBuffer
        have hone : ((s.pushed s.threadId c).threadMemory s.threadId).storeBuffer = [c] := by
          rw [Model.pushed, Model.threadMemory_setThreadMemory, if_pos rfl, hempty]
          rfl
        rw [hprepared] at h
        have hlists : s'.objToWr = s₁.objToWr := congrArg Memory.objToWr h'.memory
        unfold Model.Evicts
        rw [hlists]
        cases h with
        | control _ hcontrol _ =>
            simp [ModelAction.isControl, ModelAction.isLoad, ModelAction.isBuffered, htype] at hcontrol
        | load hload _ _ _ _ _ => simp [ModelAction.isLoad, htype] at hload
        | store _ hdrain =>
            rw [if_pos (.inl htype), hcopy] at hdrain
            have hevicts := hdrain.evicts hcfg hone hw
            exact hevicts
        | flush _ hnot =>
            rw [hw] at hnot
            cases hnot
        | mfence hfence _ => simp [htype] at hfence
        | create hcreate _ => simp [htype] at hcreate
  | resumed hctx _ =>
      cases hev
      rw [hctx] at hholds
      have hsync := hholds.1
      simp [ModelAction.isSync, htype] at hsync
  | _ => cases hev

end

/-! ## Runs -/

section

variable {cfg : Config} {n cxlMapping : Nat} {memory : Nat → Nat} {mutexType : MutexId → MutexType}
  {tr : List (Model × Label)} {s' : Model}

/-- Thread `t` has executed an `ATOMIC_RMWR` in step `x`, and only popped entries since (in `mid`). -/
structure HalfDone (t : ThreadId) (x : Model × Label × Model) (mid : List (Model × Label × Model))
    (a : ModelAction) (rf : Slots) (s : Model) : Prop where
  event : ∃ v, x.2.1.event = .executed a v rf
  type : a.type = .atomicRmwr
  tid : x.2.1.tid = t
  alone : ∀ z ∈ mid, z.2.1.tid = t
  place : (s.contextOf t).Between a.location a.size
  last : ∀ i, i < a.size → ∃ d, rf[i]? = some (some d) ∧
    ((∀ z ∈ mid, ¬ z.2.1.event.EvictsTo z.1 a.word (a.location + i)) →
      s.LastIs a.word (a.location + i) d)

/-- Whoever is between the halves has executed the first. -/
theorem IsRun.halfDone (hcfg : cfg.memPoison = false)
    (hrun : IsRun cfg n cxlMapping memory mutexType tr s') (hfree : CrashFree tr s')
    {done post : List (Model × Label × Model)} {y : Model × Label × Model}
    (heq : stepsOf tr s' = done ++ y :: post)
    (hmid : (y.1.contextOf y.1.threadId).isMidRmw = true) :
    ∃ pre x mid a rf, done = pre ++ x :: mid ∧ HalfDone y.1.threadId x mid a rf y.1 := by
  have hlisted := (hrun.listed hcfg).1
  obtain ⟨hbefore, _⟩ := hrun.2.history []
    (P := fun done s => ∀ t, (s.contextOf t).isMidRmw = true →
      ∃ pre x mid a rf, done = pre ++ x :: mid ∧ HalfDone t x mid a rf s) (by
    intro done z hz hdone t hmid
    obtain ⟨hplaced, _, htid, hcase⟩ := hlisted z hz
    have hself : t = z.1.threadId := by
      by_contra hne
      exact hne (hrun.rmwHeld hcfg z hz t ((hcase.leads hcfg hplaced t).not_midRmw hne hmid)).1
    subst hself
    rcases (hcase.midStep hcfg hplaced hmid).lastIs hcfg hplaced (hfree z hz) with
      ⟨a, v, rf, hev, htype, hplace, hlast⟩ | ⟨hbefore, hplace, hkeeps⟩
    · refine ⟨done, z, [], a, rf, rfl, ⟨v, hev⟩, htype, htid, by simp, hplace, ?_⟩
      intro i hi
      obtain ⟨d, hslot, hd⟩ := hlast i hi
      exact ⟨d, hslot, fun _ => hd⟩
    · obtain ⟨pre, x, mid, a, rf, rfl, hhalf⟩ := hdone _ hbefore
      refine ⟨pre, x, mid ++ [z], a, rf, by simp, hhalf.event, hhalf.type, hhalf.tid, ?_,
        hplace _ _ hhalf.place, ?_⟩
      · intro w hw
        rcases List.mem_append.mp hw with hw | hw
        · exact hhalf.alone w hw
        · rw [List.mem_singleton.mp hw]
          exact htid
      · intro i hi
        obtain ⟨d, hslot, hd⟩ := hhalf.last i hi
        refine ⟨d, hslot, ?_⟩
        intro hnone
        refine hkeeps _ _ _ (hnone z (by simp)) (hd ?_)
        exact fun w hw => hnone w (List.mem_append_left _ hw)) (by
    intro t hmid
    cases hmid)
  exact hbefore done y post heq _ hmid

/-- What a step leaves in a list stays at its front. -/
theorem IsRun.objToWr_prefix (hcfg : cfg.memPoison = false)
    (hrun : IsRun cfg n cxlMapping memory mutexType tr s')
    {pre post : List (Model × Label × Model)} {y : Model × Label × Model}
    (heq : stepsOf tr s' = pre ++ y :: post) (w : Nat) : y.2.2.objToWr w <+: s'.objToWr w := by
  have hlisted := (hrun.listed hcfg).1
  obtain ⟨_, hlast⟩ := hrun.2.history []
    (P := fun done s => ∀ z ∈ done, z.2.2.objToWr w <+: s.objToWr w) (by
    intro done x hx hdone z hz
    obtain ⟨hplaced, _, _, hcase⟩ := hlisted x hx
    rcases List.mem_append.mp hz with hz | hz
    · exact (hdone z hz).trans (Goes.objToWr_prefix hcfg (hcase.goes hplaced) w)
    · rw [List.mem_singleton.mp hz]) (by simp)
  exact hlast y (by simp [heq])

/-- In a run without a crash the second half of a read-modify-write follows its first half by steps of
the same thread only, and its store comes right after the store that the first half has read, for each
byte to which `process_store_buffer` evicts no store of the word in between. -/
theorem rmw_atomic (hcfg : cfg.memPoison = false)
    (hrun : IsRun cfg n cxlMapping memory mutexType tr s') (hfree : CrashFree tr s')
    {done post : List (Model × Label × Model)} {y : Model × Label × Model}
    (heq : stepsOf tr s' = done ++ y :: post) {b : ModelAction} {v : Nat} {rf' : Slots}
    (hev : y.2.1.event = .executed b v rf') (htype : b.type = .atomicRmw) :
    ∃ pre x mid a w rf, done = pre ++ x :: mid ∧ x.2.1.event = .executed a w rf ∧
      a.type = .atomicRmwr ∧ a.location = b.location ∧ a.size = b.size ∧
      x.2.1.tid = y.2.1.tid ∧ (∀ z ∈ mid, z.2.1.tid = y.2.1.tid) ∧
      ∀ i, i < b.size → ∃ d, rf[i]? = some (some d) ∧
        ((∀ z ∈ mid, ¬ z.2.1.event.EvictsTo z.1 b.word (b.location + i)) →
          ∃ older between newer, s'.objToWr b.word = older ++ d :: between ++
              { b with tick := y.1.ticks } :: newer ∧
            ∀ c ∈ between, ¬ c.Covers (b.location + i)) := by
  have hy : y ∈ stepsOf tr s' := by simp [heq]
  obtain ⟨hplaced, _, htid, hcase⟩ := (hrun.listed hcfg).1 y hy
  rw [hev] at hcase
  obtain ⟨hmid, hbetween, hevicts⟩ := hcase.rmw_evicts hcfg hplaced htype (hrun.rmwHeld hcfg y hy)
  obtain ⟨pre, x, mid, a, rf, hdone, hhalf⟩ := hrun.halfDone hcfg hfree heq hmid
  obtain ⟨w, hx⟩ := hhalf.event
  obtain ⟨hloc, hsize⟩ := hbetween _ _ hhalf.place
  have hword : a.word = b.word := by
    rw [ModelAction.word, ModelAction.word, hloc]
  refine ⟨pre, x, mid, a, w, rf, hdone, hx, hhalf.type, hloc.symm, hsize.symm,
    hhalf.tid.trans htid.symm, fun z hz => (hhalf.alone z hz).trans htid.symm, ?_⟩
  intro i hi
  obtain ⟨d, hslot, hlast⟩ := hhalf.last i (hsize ▸ hi)
  refine ⟨d, hslot, ?_⟩
  intro hnone
  rw [hword, ← hloc] at hlast
  obtain ⟨older, between, hlist, hnot⟩ := hlast hnone
  have hafter : y.2.2.objToWr b.word =
      older ++ d :: between ++ [{ b with tick := y.1.ticks }] := by
    rw [hevicts (by rw [hlist]; simp), Function.update_self, hlist]
  obtain ⟨newer, hnewer⟩ := hrun.objToWr_prefix hcfg heq b.word
  refine ⟨older, between, newer, ?_, hnot⟩
  rw [← hnewer, hafter, List.append_assoc]
  rfl

end

/-! ## An update that is kept and one that is lost -/

/-- Thread 1 stores to `first` and then to `second`; thread 0 adds 1 to the byte 4096, and between its
read and its write the first of the stores is evicted. -/
def rmwBetween (first second : Nat) : List (Input × List Nat) :=
  [({ call := .schedYield }, []),
    ({ call := .store first .w8 5 }, []), ({}, []), ({}, []),
    ({ call := .store second .w8 6 }, []), ({}, []), ({}, []),
    ({ call := .schedYield }, []), ({}, []), ({}, []),
    ({ call := .atomicRmw (.fetchAdd 1) 4096 .w8 5 5 }, []),
    ({}, []), ({}, []), ({ call := .schedYield }, []),
    ({ rand := 1, random := 1 }, []), ({}, []), ({}, []), ({}, [])]

/-- The last step, where it executes the second half of a read-modify-write of the byte 4096. -/
def lastRmw (steps : List (Model × Label × Model)) : Option (Model × Label × Model × ModelAction) :=
  match steps.getLast? with
  | some y =>
      match y.2.1.event with
      | .executed b _ _ =>
          if b.type = .atomicRmw ∧ b.location = 4096 ∧ b.size = 1 then some (y.1, y.2.1, y.2.2, b)
          else none
      | _ => none
  | none => none

theorem lastRmw_eq {steps : List (Model × Label × Model)} {s s' : Model} {l : Label} {b : ModelAction}
    (h : lastRmw steps = some (s, l, s', b)) : ∃ done v rf, steps = done ++ [(s, l, s')] ∧
      l.event = .executed b v rf ∧ b.type = .atomicRmw ∧ b.location = 4096 ∧ b.size = 1 := by
  unfold lastRmw at h
  split at h
  case h_2 => cases h
  case h_1 y hlast =>
    split at h
    case h_2 => cases h
    case h_1 c v rf hev =>
      split at h
      case isFalse => cases h
      case isTrue hrmw =>
        cases h
        obtain ⟨done, hsteps⟩ := List.getLast?_eq_some_iff.mp hlast
        exact ⟨done, v, rf, hsteps, hev, hrmw⟩

/-- Nothing is evicted to the word 4096 by `process_store_buffer`. -/
def sparesWord (steps : List (Model × Label × Model)) : Bool :=
  steps.all fun x =>
    match x.2.1.event with
    | .popped mem =>
        match (x.1.threadMemory mem).storeBuffer with
        | b :: _ => b.word ≠ 4096
        | [] => true
    | _ => true

theorem sparesWord_iff {steps : List (Model × Label × Model)} {addr : Nat}
    (h : sparesWord steps = true) : ∀ z ∈ steps, ¬ z.2.1.event.EvictsTo z.1 4096 addr := by
  intro z hz hevicts
  have hspare := List.all_eq_true.mp h z hz
  cases hev : z.2.1.event with
  | popped mem =>
      rw [hev] at hspare hevicts
      obtain ⟨b, rest, hbuf, _, hword, _⟩ := hevicts
      simp [hbuf, hword] at hspare
  | _ =>
      rw [hev] at hevicts
      exact hevicts

/-- `rmw_atomic` on a run in which a store to another word is evicted between the halves. -/
theorem rmw_atomic_spared : ∃ tr s done y b v rf,
    IsRun .asBuilt 2 4096 (fun _ => 0) (fun _ => .default) tr s ∧ CrashFree tr s ∧
    stepsOf tr s = done ++ [y] ∧ y.2.1.event = .executed b v rf ∧ b.type = .atomicRmw ∧
    (∃ z ∈ done, z.2.1.event = .popped 1) ∧
    ∃ d older between newer, s.objToWr b.word = older ++ d :: between ++
        { b with tick := y.1.ticks } :: newer ∧
      ∀ c ∈ between, ¬ c.Covers (b.location + 0) := by
  obtain ⟨tr, s, hrun, hcheck⟩ := exists_run_of_replay .asBuilt
    (Model.init 2 4096 (fun _ => 0) (fun _ => .default)) (rmwBetween 4104 4096)
    (fun tr s => crashFree tr s && sparesWord (stepsOf tr s) && (lastRmw (stepsOf tr s)).isSome &&
      (stepsOf tr s).any fun z => decide (z.2.1.event = .popped 1)) (by decide +kernel)
  simp only [Bool.and_eq_true, List.any_eq_true, decide_eq_true_eq] at hcheck
  obtain ⟨⟨⟨hfree, hspare⟩, hlast⟩, z, hz, hpopped⟩ := hcheck
  obtain ⟨⟨s₁, l, s₂, b⟩, hlast⟩ := Option.isSome_iff_exists.mp hlast
  obtain ⟨done, v, rf, hsteps, hev, htype, hloc, hsize⟩ := lastRmw_eq hlast
  have hrun' : IsRun .asBuilt 2 4096 (fun _ => 0) (fun _ => .default) tr s := ⟨by decide, hrun⟩
  have hword : b.word = 4096 := by rw [ModelAction.word, hloc]; rfl
  obtain ⟨pre, x, mid, a, w, rf', hdone, _, _, _, _, _, _, hbytes⟩ :=
    rmw_atomic rfl hrun' (crashFree_iff hfree) hsteps hev htype
  obtain ⟨d, _, hafter⟩ := hbytes 0 (by omega)
  refine ⟨tr, s, done, (s₁, l, s₂), b, v, rf, hrun', crashFree_iff hfree, hsteps, hev, htype, ?_, d, ?_⟩
  · refine ⟨z, ?_, hpopped⟩
    rw [hsteps] at hz
    rcases List.mem_append.mp hz with hz | hz
    · exact hz
    · rw [List.mem_singleton.mp hz] at hpopped
      rw [hev] at hpopped
      cases hpopped
  · apply hafter
    rw [hword]
    intro z hz
    apply sparesWord_iff hspare
    rw [hsteps, hdone]
    simp [hz]

/-- In a list of three different stores only the middle one is between the others. -/
theorem between_of_three {c d e : ModelAction} {older between newer : List ModelAction}
    (hdc : d ≠ c) (hde : d ≠ e) (hce : c ≠ e)
    (h : [d, c, e] = older ++ d :: between ++ e :: newer) : c ∈ between := by
  cases older with
  | nil =>
      cases between with
      | nil =>
          simp at h
          exact absurd h.1 hce
      | cons b rest =>
          simp at h
          rw [h.1]
          exact List.mem_cons_self
  | cons o rest =>
      have hd : d ∈ [c, e] := by
        simp at h
        rw [h.2]
        simp
      simp [hdc, hde] at hd

/-- The step is the first half of a read-modify-write by thread 0 that reads one byte of `d`. -/
def firstHalfReads (d : ModelAction) (x : Model × Label × Model) : Bool :=
  match x.2.1.event with
  | .executed a _ [some d'] => decide (a.type = .atomicRmwr ∧ x.2.1.tid = 0 ∧ d' = d)
  | _ => false

/-- The last step is the second half of a read-modify-write by thread 0, and between the store that
its first half read and its own another thread has stored to 4096. -/
def storedBetween (steps : List (Model × Label × Model)) (s : Model) : Bool :=
  match lastRmw steps, s.objToWr 4096 with
  | some (s₁, l, _, b), [d, c, e] =>
      decide (e = { b with tick := s₁.ticks } ∧ d ≠ c ∧ d ≠ e ∧ c ≠ e ∧
        c.Covers 4096 ∧ c.tid ≠ l.tid ∧ l.tid = 0) && steps.any (firstHalfReads d)
  | _, _ => false

/-- Between the halves of a `fetch_add` a store of another process to the same byte is evicted, and the
addition overwrites it. -/
theorem rmw_not_atomic : ∃ tr s done y b v rf,
    IsRun .asBuilt 2 4096 (fun _ => 0) (fun _ => .default) tr s ∧ CrashFree tr s ∧
    stepsOf tr s = done ++ [y] ∧ y.2.1.event = .executed b v rf ∧ b.type = .atomicRmw ∧
    b.NaturallyAligned ∧
    ∃ x ∈ done, ∃ (a : ModelAction) (w : Nat) (rf' : Slots) (d c : ModelAction),
      x.2.1.event = .executed a w rf' ∧ a.type = .atomicRmwr ∧
      x.2.1.tid = y.2.1.tid ∧ rf'[0]? = some (some d) ∧ c.tid ≠ y.2.1.tid ∧
      ¬ ∃ older between newer, s.objToWr b.word = older ++ d :: between ++
          { b with tick := y.1.ticks } :: newer ∧
        ∀ c ∈ between, ¬ c.Covers (b.location + 0) := by
  obtain ⟨tr, s, hrun, hcheck⟩ := exists_run_of_replay .asBuilt
    (Model.init 2 4096 (fun _ => 0) (fun _ => .default)) (rmwBetween 4096 4104)
    (fun tr s => crashFree tr s && storedBetween (stepsOf tr s) s) (by decide +kernel)
  rw [Bool.and_eq_true] at hcheck
  obtain ⟨hfree, hcheck⟩ := hcheck
  unfold storedBetween at hcheck
  split at hcheck
  case h_2 => cases hcheck
  case h_1 s₁ l s₂ b d c e hlast hlist =>
    simp only [Bool.and_eq_true, List.any_eq_true, decide_eq_true_eq] at hcheck
    obtain ⟨⟨he, hdc, hde, hce, hcovers, htid, hzero⟩, x, hx, hread⟩ := hcheck
    obtain ⟨done, v, rf, hsteps, hev, htype, hloc, hsize⟩ := lastRmw_eq hlast
    have hword : b.word = 4096 := by rw [ModelAction.word, hloc]; rfl
    unfold firstHalfReads at hread
    split at hread
    case h_2 => cases hread
    case h_1 a w d' hev' =>
      obtain ⟨hrmwr, hself, rfl⟩ := of_decide_eq_true hread
      have hx' : x ∈ done := by
        rw [hsteps] at hx
        rcases List.mem_append.mp hx with hx | hx
        · exact hx
        · -- the last step is the second half
          rw [List.mem_singleton.mp hx] at hev'
          rw [hev] at hev'
          cases hev'
          rw [hrmwr] at htype
          cases htype
      refine ⟨tr, s, done, (s₁, l, s₂), b, v, rf, ⟨by decide, hrun⟩, crashFree_iff hfree, hsteps, hev,
        htype, ⟨.inl hsize, by rw [hsize, Nat.mod_one]⟩, x, hx', a, w, _, d', c, hev', hrmwr,
        hself.trans hzero.symm, rfl, htid, ?_⟩
      rintro ⟨older, between, newer, hafter, hnot⟩
      rw [hword, hlist, ← he] at hafter
      rw [hloc] at hnot
      exact hnot c (between_of_three hdc hde hce hafter) hcovers

end Cxlmc
