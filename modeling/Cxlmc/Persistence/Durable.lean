import Cxlmc.Persistence.Image
import Cxlmc.Flush.Fenced

/-!
# What has persisted is never lost

A store is durable once the interval of its process begins at it or later. It stays so whatever happens
(`Goes.durable`), and every later read of one of its bytes returns it or a store that came after it,
whoever has crashed and whatever is decided (`MemStep.readsFrom`). Three things make a store durable: a
`CLFLUSH` of its line (`clflush_durable`), a read by another process (`seen_durable`), and a `CLFLUSHOPT`
of its line by its own thread, followed by a fence (`fenced_durable`).
-/

namespace Cxlmc

open Stateful Fill

namespace Model

/-- The store has persisted. -/
def Durable (s : Model) (w : ModelAction) : Prop :=
  w.seqNum ≤ (s.objToCl (s.getProcessId w) w.line).getBegin

/-- The store at place `k` of the list of a word. -/
def ListedAt (s : Model) (word k : Nat) (w : ModelAction) : Prop := (s.objToWr word)[k]? = some w

/-- A read of `a` that has ended with the slots `rf` takes byte `i` from the store at place `k` of the
list, from a later one, or from its own store buffer. -/
def ReadsFrom (s : Model) (a : ModelAction) (rf : Slots) (i k : Nat) : Prop :=
  ∃ b, rf[i]? = some (some b) ∧
    (b ∈ (s.objToWr a.word).drop k ∨ b ∈ (s.threadMemory a.tid).storeBuffer)

end Model

section

variable {cfg : Config} {read : ModelAction} {rpid : ProcessId} {store w b : ModelAction}
  {older newer ws : List ModelAction} {s s' s₁ s₂ : Model} {rf rf₁ rf' : Slots} {e : Effect}
  {P : Effect → Prop} {a : ModelAction} {t : ThreadId} {i k word : Nat}

/-! ## Durable stores stay -/

theorem MemStep.listedAt (hcfg : cfg.memPoison = false) (h : MemStep cfg s e s')
    (hw : s.ListedAt word k w) : s'.ListedAt word k w := by
  unfold Model.ListedAt at hw ⊢
  cases h.list hcfg word with
  | kept heq =>
      rw [heq]
      exact hw
  | evicted _ _ _ _ _ _ _ heq =>
      rw [heq, List.getElem?_append_left (List.getElem?_eq_some_iff.mp hw).1]
      exact hw
  | initial _ _ hempty _ => simp [hempty] at hw

theorem MemStep.durable (hcfg : cfg.memPoison = false) (h : MemStep cfg s e s')
    (htid : w.tid < s.threadCount) (hw : s.Durable w) : s'.Durable w := by
  have hpid : s'.getProcessId w = s.getProcessId w := (h.threadCount hcfg).2.2 _ htid
  unfold Model.Durable at hw ⊢
  rw [hpid]
  exact Nat.le_trans hw (h.getBegin_le hcfg _ _)

/-- A durable store stays durable, and stays where it is listed. -/
theorem Goes.durable (hcfg : cfg.memPoison = false) (h : Goes (MemStep cfg) P s s') (hr : s.Recorded)
    (hlisted : s.ListedAt word k w) (hw : s.Durable w) :
    s'.Recorded ∧ s'.ListedAt word k w ∧ s'.Durable w := by
  apply h.invariant (I := fun x => x.Recorded ∧ x.ListedAt word k w ∧ x.Durable w) _ ⟨hr, hlisted, hw⟩
  intro x e y _ hx hstep
  obtain ⟨hr, hlisted, hw⟩ := hx
  have htid := (hr.listed word w (List.mem_of_getElem? hlisted)).1
  exact ⟨hstep.recorded hcfg hr, hstep.listedAt hcfg hlisted, hstep.durable hcfg htid hw⟩

/-! ## Reads -/

/-- A filled slot keeps its store. -/
theorem Visit.getElem?_filled (h : Visit cfg read rpid store older s rf s₁ rf₁)
    (hb : rf[i]? = some (some b)) : rf₁[i]? = some (some b) := by
  rcases h.slots with rfl | rfl
  · rw [getElem?_fill, hb]
    rfl
  · exact hb

theorem readLoop_filled (hlen : rf.length = read.size) (hfree : countFree rf ≠ 0)
    (h : (readLoop cfg read rpid ws rf (countFree rf)).Ends s (.ok rf') s')
    (hb : rf[i]? = some (some b)) : rf'[i]? = some (some b) := by
  induction ws generalizing s rf with
  | nil => cases (ends_stop.mp h).1
  | cons store older ih =>
      obtain ⟨s₁, rf₁, hv, hrest⟩ := (ends_readLoop_cons hlen hfree).mp h
      unfold LoopRest at hrest
      split at hrest
      · cases hrest.1
        exact hv.getElem?_filled hb
      · next hfull => exact ih (hv.length_eq.trans hlen) hfull hrest (hv.getElem?_filled hb)

/-- A round fills slots with its store only. -/
theorem Visit.filled_cases (h : Visit cfg read rpid store older s rf s₁ rf₁)
    (hb : rf₁[i]? = some (some b)) : rf[i]? = some (some b) ∨ b = store := by
  rcases h.slots with rfl | rfl
  · rw [getElem?_fill] at hb
    obtain ⟨o, ho, heq⟩ := Option.map_eq_some_iff.mp hb
    cases o with
    | some c =>
        left
        rw [ho, ← heq]
        rfl
    | none =>
        right
        cases hwants : wants read store i <;> simp [hwants] at heq
        exact heq.symm
  · exact .inl hb

/-- A durable store fills all slots it wants. -/
theorem Visit.of_durable (hline : store.line = read.line) (hstore : s.Durable store)
    (h : Visit cfg read rpid store older s rf s₁ rf₁) : rf₁ = fill (wants read) store rf := by
  rw [Model.Durable, hline] at hstore
  have hnot : ¬ (s.objToCl (s.getProcessId store) read.line).MayPersist store.seqNum :=
    fun h => absurd hstore (Nat.not_le_of_lt h.1)
  have hpersist : ∀ {rf₂ : Slots}, Persist cfg read store older s rf s₁ rf₂ →
      rf₂ = fill (wants read) store rf := fun h => ((persist_persisted hstore).mp h).2
  cases h with
  | running _ h => exact h.slots_eq
  | crash _ h _ => exact absurd h.may.2.2.2.2 (Nat.not_lt_of_le hstore)
  | crashed _ h => exact hpersist h

/-- So does a store whose process has not crashed by the end of the round. -/
theorem Visit.of_uncrashed (hlive : s₁.isCrashed (s₁.getProcessId store) = false)
    (h : Visit cfg read rpid store older s rf s₁ rf₁) : rf₁ = fill (wants read) store rf := by
  rw [h.observes.getProcessId_eq, Bool.eq_false_iff, Ne, Model.isCrashed_iff] at hlive
  have hgrows := h.observes.crashes
  cases h with
  | running _ h => exact h.slots_eq
  | crash _ h h' =>
      have hpersist : ∀ {x : Model}, Persist cfg read store older x rf s₁ rf₁ → x.Observes rpid s₁ :=
        fun h => .of_marks h.marks
      refine absurd ((hpersist h').crashes.mem ?_) hlive
      rw [h.state]
      exact Crashes.mem_emplace.mpr (.inl rfl)
  | crashed hcrashed _ => exact absurd (hgrows.mem (Model.isCrashed_iff.mp hcrashed)) hlive

/-- The round of `w` fills all slots that `w` wants, where `I` holds before it and `J` after it. Then the
loop over a list with `w` in it takes each byte of `w` from `w` or from a newer store. -/
theorem readLoop_takes {I J : Model → Prop}
    (hI : ∀ {rpid : ProcessId} {store : ModelAction} {older : List ModelAction} {s s₁ : Model}
      {rf rf₁ : Slots}, Visit cfg read rpid store older s rf s₁ rf₁ → I s → I s₁)
    (hJ : ∀ {s s₁ : Model}, s.Observes rpid s₁ → J s₁ → J s)
    (hfill : ∀ {s s₁ : Model} {rf rf₁ : Slots}, Visit cfg read rpid w older s rf s₁ rf₁ → I s → J s₁ →
      rf₁ = fill (wants read) w rf)
    (hlen : rf.length = read.size) (hfree : countFree rf ≠ 0) (hbefore : I s) (hafter : J s')
    (hi : i < read.size) (hwants : wants read w i = true)
    (h : (readLoop cfg read rpid (newer ++ w :: older) rf (countFree rf)).Ends s (.ok rf') s') :
    ∃ b, rf'[i]? = some (some b) ∧ (rf[i]? = some (some b) ∨ b ∈ newer ++ [w]) := by
  induction newer generalizing s rf with
  | nil =>
      obtain ⟨s₁, rf₁, hv, hrest⟩ := (ends_readLoop_cons hlen hfree).mp h
      have hlen₁ := hv.length_eq.trans hlen
      obtain ⟨o, ho⟩ : ∃ o, rf[i]? = some o := ⟨_, List.getElem?_eq_getElem (by omega)⟩
      have hslot : J s₁ → ∃ b, rf₁[i]? = some (some b) ∧ (rf[i]? = some (some b) ∨ b ∈ [w]) := by
        intro hs₁
        rw [hfill hv hbefore hs₁, getElem?_fill, ho]
        cases o with
        | some b => exact ⟨b, rfl, .inl rfl⟩
        | none => exact ⟨w, by simp [hwants], .inr List.mem_cons_self⟩
      unfold LoopRest at hrest
      split at hrest
      · obtain ⟨hrf, rfl⟩ := hrest
        cases hrf
        exact hslot hafter
      · next hfull =>
          obtain ⟨b, hb, hfrom⟩ := hslot (hJ (readLoop_observes hlen₁ hfull hrest) hafter)
          exact ⟨b, readLoop_filled hlen₁ hfull hrest hb, hfrom⟩
  | cons c newer ih =>
      obtain ⟨s₁, rf₁, hv, hrest⟩ := (ends_readLoop_cons hlen hfree).mp h
      have hlen₁ := hv.length_eq.trans hlen
      -- what the round has filled was filled before, or is the store of the round
      have horigin : ∀ b, rf₁[i]? = some (some b) → rf[i]? = some (some b) ∨ b ∈ (c :: newer) ++ [w] := by
        intro b hb
        rcases hv.filled_cases hb with hb | rfl
        · exact .inl hb
        · exact .inr List.mem_cons_self
      unfold LoopRest at hrest
      split at hrest
      · next hfull =>
          cases hrest.1
          rw [countFree_eq_zero] at hfull
          have hlt : i < rf'.length := by omega
          obtain ⟨b, hb⟩ := Option.ne_none_iff_exists'.mp (hfull _ (List.getElem_mem hlt))
          have hslot : rf'[i]? = some (some b) := by rw [List.getElem?_eq_getElem hlt, hb]
          exact ⟨b, hslot, horigin b hslot⟩
      · next hfull =>
          obtain ⟨b, hb, hfrom⟩ := ih hlen₁ hfull (hI hv hbefore) hrest
          refine ⟨b, hb, ?_⟩
          rcases hfrom with hfrom | hfrom
          · exact horigin b hfrom
          · exact .inr (List.mem_cons_of_mem c hfrom)

/-- The two halves of a list at a place, newest first. -/
theorem reverse_eq_of_getElem? {l : List ModelAction} (hw : l[k]? = some w) :
    l.reverse = (l.drop (k + 1)).reverse ++ w :: (l.take k).reverse := by
  obtain ⟨hk, hget⟩ := List.getElem?_eq_some_iff.mp hw
  have hsplit : l = l.take k ++ w :: l.drop (k + 1) := by
    rw [← hget, ← List.drop_eq_getElem_cons hk, List.take_append_drop]
  have hreverse := congrArg List.reverse hsplit
  rw [List.reverse_append, List.reverse_cons, List.append_assoc] at hreverse
  exact hreverse

/-- A read takes each byte of such a store from the store, from a later one, or from the store buffer of
the reader. -/
theorem MemStep.takes {I J : Model → Prop} (hcfg : cfg.memPoison = false)
    (h : MemStep cfg s (.read read rf) s')
    (hI : ∀ {rpid : ProcessId} {store : ModelAction} {older : List ModelAction} {s s₁ : Model}
      {rf rf₁ : Slots}, Visit cfg read rpid store older s rf s₁ rf₁ → I s → I s₁)
    (hJ : ∀ {s s₁ : Model} {own : ProcessId}, s.Observes own s₁ → J s₁ → J s)
    (hfill : ∀ {older : List ModelAction} {s s₁ : Model} {rpid : ProcessId} {rf rf₁ : Slots},
      Visit cfg read rpid w older s rf s₁ rf₁ → I s → J s₁ → rf₁ = fill (wants read) w rf)
    (hlisted : s.ListedAt read.word k w) (hbefore : I s) (hafter : J s') (hi : i < read.size)
    (hwants : wants read w i = true) : s.ReadsFrom read rf i k := by
  have hbuffer : ∀ b, (bypassed s read)[i]? = some (some b) →
      b ∈ (s.threadMemory read.tid).storeBuffer := fun b hb => mem_bypassed (List.mem_of_getElem? hb)
  cases h with
  | read _ _ _ hpos hends =>
      rw [ends_buildReadFromSlots hpos hcfg, LoopRest] at hends
      split at hends
      · next hfull =>
          cases hends.1
          rw [countFree_eq_zero] at hfull
          have hlt : i < (bypassed s read).length := by rwa [length_bypassed]
          obtain ⟨b, hb⟩ := Option.ne_none_iff_exists'.mp (hfull _ (List.getElem_mem hlt))
          have hslot : (bypassed s read)[i]? = some (some b) := by rw [List.getElem?_eq_getElem hlt, hb]
          exact ⟨b, hslot, .inr (hbuffer b hslot)⟩
      · next hfull =>
          have hlist : (s.getStorelist read.location).reverse = _ := reverse_eq_of_getElem? hlisted
          rw [hlist] at hends
          obtain ⟨b, hb, hfrom⟩ := readLoop_takes hI hJ hfill (length_bypassed s read) hfull hbefore hafter hi
            hwants hends
          refine ⟨b, hb, ?_⟩
          rcases hfrom with hfrom | hfrom
          · exact .inr (hbuffer b hfrom)
          · left
            obtain ⟨hk, hget⟩ := List.getElem?_eq_some_iff.mp hlisted
            rw [List.drop_eq_getElem_cons hk, hget]
            rcases List.mem_append.mp hfrom with hfrom | hfrom
            · exact List.mem_cons_of_mem w (List.mem_reverse.mp hfrom)
            · rw [List.mem_singleton.mp hfrom]
              exact List.mem_cons_self

/-- A durable store is such a store. -/
theorem MemStep.readsFrom (hcfg : cfg.memPoison = false) (h : MemStep cfg s (.read read rf) s')
    (hline : w.line = read.line) (hlisted : s.ListedAt read.word k w) (hw : s.Durable w)
    (hi : i < read.size) (hwants : wants read w i = true) : s.ReadsFrom read rf i k := by
  refine h.takes (I := fun x => x.Durable w) (J := fun _ => True) hcfg ?_ (fun _ _ => trivial) ?_ hlisted hw
    trivial hi hwants
  · intro rpid store older x x₁ rf rf₁ hv hx
    unfold Model.Durable at hx ⊢
    rw [hv.observes.getProcessId_eq]
    exact Nat.le_trans hx hv.getBegin_le
  · intro older x x₁ rpid rf rf₁ hv hx _
    exact hv.of_durable hline hx

/-- So do all reads from then on. -/
theorem Goes.readsFrom {rf : Slots} (hcfg : cfg.memPoison = false) (hgoes : Goes (MemStep cfg) P s s₁)
    (hr : s.Recorded) (hlisted : s.ListedAt read.word k w) (hw : s.Durable w)
    (hread : MemStep cfg s₁ (.read read rf) s') (hi : i < read.size) (hwants : wants read w i = true) :
    s₁.ReadsFrom read rf i k := by
  obtain ⟨hr₁, hlisted₁, hw₁⟩ := Goes.durable hcfg hgoes hr hlisted hw
  exact hread.readsFrom hcfg (hr₁.line_of_mem (List.mem_of_getElem? hlisted₁)) hlisted₁ hw₁ hi hwants

/-! ## A `CLFLUSH` -/

/-- A `CLFLUSH` that leaves the store buffer makes every store that its line has by then durable. -/
theorem MemStep.durable_popClflush (hcfg : cfg.memPoison = false) (h : MemStep cfg s (.popClflush t a) s')
    (ht : s.Ticked) (hticks : s.ticks < 2 ^ 32) (hlisted : s.ListedAt word k w) (htid : w.tid < s.threadCount)
    (hwriter : s.getProcessId w < s.processCount) (hline : w.line = a.line) : s'.Durable w := by
  have hpid : s'.getProcessId w = s.getProcessId w := (h.threadCount hcfg).2.2 _ htid
  have hle : w.seqNum ≤ s.nextSequenceNum := by
    rw [Memory.nextSequenceNum_of_lt hticks]
    apply Nat.le_trans w.seqNum_le
    rcases ht word w (List.mem_of_getElem? hlisted) with hzero | hlt
    · rw [hzero]
      exact Nat.zero_le _
    · exact Nat.le_of_lt hlt
  rw [Model.Durable, hpid, hline]
  cases h with
  | popClflush _ _ rest _ _ =>
      rw [Model.flushed_objToCl]
      split
      · exact hle
      · next hnot =>
          refine Nat.le_trans hle (Nat.le_of_not_lt fun hlt => hnot ⟨rfl, ?_, hlt⟩)
          exact hwriter

/-- A `CLFLUSH` of the line takes place before the clock has wrapped around, and then a read: each byte of a
store that was in memory at the flush comes from this store or a later one. -/
theorem clflush_durable {n cxlMapping : Nat} {memory : Nat → Nat} {mutexType : MutexId → MutexType}
    (hcfg : cfg.memPoison = false) (hn : 1 ≤ n)
    (h₁ : Goes (MemStep cfg) (fun _ => True) (Model.init n cxlMapping memory mutexType) s)
    (hlisted : s.ListedAt read.word k w) (hwriter : s.getProcessId w < s.processCount)
    (hflush : MemStep cfg s (.popClflush t a) s₁) (hline : a.line = read.line) (hticks : s.ticks < 2 ^ 32)
    (h₂ : Goes (MemStep cfg) (fun _ => True) s₁ s₂) (hread : MemStep cfg s₂ (.read read rf) s')
    (hi : i < read.size) (hwants : wants read w i = true) : s₂.ReadsFrom read rf i k := by
  have hr : s.Recorded := Goes.recorded hcfg h₁ (Model.recorded_init hn)
  have hmem := List.mem_of_getElem? hlisted
  have hdurable : s₁.Durable w := by
    apply hflush.durable_popClflush hcfg (Goes.rising hcfg h₁).1 hticks hlisted (hr.listed _ w hmem).1 hwriter
    rw [hr.line_of_mem hmem, hline]
  exact Goes.readsFrom hcfg h₂ (hflush.recorded hcfg hr) (hflush.listedAt hcfg hlisted) hdurable hread hi
    hwants

/-! ## A read by another process -/

/-- A read returns stores of the list of its word and of its own store buffer. -/
theorem readLoop_mem (hlen : rf.length = read.size) (hfree : countFree rf ≠ 0)
    (h : (readLoop cfg read rpid ws rf (countFree rf)).Ends s (.ok rf') s') (hb : some b ∈ rf') :
    some b ∈ rf ∨ b ∈ ws := by
  induction ws generalizing s rf with
  | nil => cases (ends_stop.mp h).1
  | cons store older ih =>
      obtain ⟨s₁, rf₁, hv, hrest⟩ := (ends_readLoop_cons hlen hfree).mp h
      have hround : some b ∈ rf₁ → some b ∈ rf ∨ b ∈ store :: older := by
        intro hmem
        obtain ⟨j, hj⟩ := List.mem_iff_getElem?.mp hmem
        rcases hv.filled_cases hj with hj | rfl
        · exact .inl (List.mem_of_getElem? hj)
        · exact .inr List.mem_cons_self
      unfold LoopRest at hrest
      split at hrest
      · cases hrest.1
        exact hround hb
      · next hfull =>
          rcases ih (hv.length_eq.trans hlen) hfull hrest with hmem | hmem
          · exact hround hmem
          · exact .inr (List.mem_cons_of_mem store hmem)

theorem MemStep.mem_of_read (hcfg : cfg.memPoison = false) (h : MemStep cfg s (.read read rf) s')
    (hb : some b ∈ rf) : b ∈ s.objToWr read.word ∨ b ∈ (s.threadMemory read.tid).storeBuffer := by
  cases h with
  | read _ _ _ hpos hends =>
      rw [ends_buildReadFromSlots hpos hcfg, LoopRest] at hends
      split at hends
      · cases hends.1
        exact .inr (mem_bypassed hb)
      · next hfull =>
          rcases readLoop_mem (length_bypassed s read) hfull hends hb with hmem | hmem
          · exact .inr (mem_bypassed hmem)
          · exact .inl (List.mem_reverse.mp hmem)

/-- Below the wrap the clock of a store that is returned is the number it took. -/
theorem MemStep.seqNum_of_read (hcfg : cfg.memPoison = false) (hr : s.Recorded) (ht : s.Ticked)
    (hticks : s.ticks < 2 ^ 32) (h : MemStep cfg s (.read read rf) s') (hb : some b ∈ rf) :
    b.seqNum = b.tick := by
  apply ModelAction.seqNum_of_lt
  rcases h.mem_of_read hcfg hb with hmem | hmem
  · exact ht.tick_lt hmem hticks
  · rw [(hr.buffered _ b hmem).2.2]
    decide

/-- What a round takes from another process is durable after it. -/
theorem Visit.durable_of_ne (hline : store.line = read.line)
    (h : Visit cfg read rpid store older s rf s₁ rf₁) (hne : rf₁ ≠ rf) :
    store.type = .atomicInit ∨ s.getProcessId store = rpid ∨ s₁.Durable store := by
  unfold Model.Durable
  rw [h.observes.getProcessId_eq, hline]
  have hpersist : ∀ {x : Model} {rf₂ : Slots}, x.getProcessId store = s.getProcessId store →
      Persist cfg read store older x rf s₁ rf₂ → rf₂ ≠ rf →
      store.seqNum ≤ (s₁.objToCl (s.getProcessId store) read.line).getBegin := by
    intro x rf₂ hpid h hne
    rw [← hpid]
    cases h with
    | persisted hle => exact hle
    | kept _ _ _ =>
        have hcl : (x.raiseBegin (x.getProcessId store) read.line store.seqNum).objToCl
            (x.getProcessId store) read.line =
              (x.objToCl (x.getProcessId store) read.line).setBegin store.seqNum := if_pos ⟨rfl, rfl⟩
        rw [hcl]
        exact Nat.le_refl _
    | _ => exact absurd rfl hne
  cases h with
  | running _ h =>
      cases h with
      | shadowed _ => exact absurd rfl hne
      | own _ hown => exact hown.imp_right .inl
      | declined _ _ _ _ => exact .inr (.inr (s.countCrashPoint.le_begin_declineCrash store read.line))
      | notOffered _ _ _ _ => exact .inr (.inr (s.le_begin_declineCrash store read.line))
  | crash _ h h' =>
      have hpid := congrArg (fun x => x.getProcessId store) h.state
      exact .inr (.inr (hpersist hpid h' hne))
  | crashed _ h => exact .inr (.inr (hpersist rfl h hne))

theorem readLoop_durable_of_mem (hline : ∀ c ∈ ws, c.line = read.line) (hlen : rf.length = read.size)
    (hfree : countFree rf ≠ 0) (h : (readLoop cfg read rpid ws rf (countFree rf)).Ends s (.ok rf') s')
    (hb : some b ∈ rf') :
    some b ∈ rf ∨ b.type = .atomicInit ∨ s.getProcessId b = rpid ∨ s'.Durable b := by
  induction ws generalizing s rf with
  | nil => cases (ends_stop.mp h).1
  | cons store older ih =>
      obtain ⟨s₁, rf₁, hv, hrest⟩ := (ends_readLoop_cons hlen hfree).mp h
      have hlen₁ := hv.length_eq.trans hlen
      -- a slot that this round has filled
      have hround : some b ∈ rf₁ → some b ∈ rf ∨ b.type = .atomicInit ∨ s.getProcessId b = rpid ∨
          s₁.Durable b := by
        intro hmem
        by_cases hne : rf₁ = rf
        · exact .inl (hne ▸ hmem)
        · obtain ⟨j, hj⟩ := List.mem_iff_getElem?.mp hmem
          rcases hv.filled_cases hj with hj | rfl
          · exact .inl (List.mem_of_getElem? hj)
          · exact .inr (hv.durable_of_ne (hline b List.mem_cons_self) hne)
      unfold LoopRest at hrest
      split at hrest
      · obtain ⟨hrf, rfl⟩ := hrest
        cases hrf
        exact hround hb
      · next hfull =>
          have hkept : s₁.Durable b → s'.Durable b := by
            intro hd
            unfold Model.Durable at hd ⊢
            rw [(readLoop_observes hlen₁ hfull hrest).getProcessId_eq]
            exact Nat.le_trans hd (readLoop_getBegin_le hlen₁ hfull hrest)
          rcases ih (fun c hc => hline c (List.mem_cons_of_mem store hc)) hlen₁ hfull hrest with
            hmem | hinit | hown | hd
          · exact (hround hmem).imp_right fun h => h.imp_right fun h => h.imp_right hkept
          · exact .inr (.inl hinit)
          · rw [hv.observes.getProcessId_eq] at hown
            exact .inr (.inr (.inl hown))
          · exact .inr (.inr (.inr hd))

/-- A store that a read returns to another process is durable. -/
theorem MemStep.durable_read (hcfg : cfg.memPoison = false) (hr : s.Recorded)
    (h : MemStep cfg s (.read read rf) s') (hb : some b ∈ rf)
    (hother : s.getProcessId b ≠ s.getProcessId read) (hinit : b.type = .atomicInit → b.seqNum = 0) :
    s'.Durable b := by
  -- the stores of the own store buffer are of the own process
  have hbypassed : some b ∉ bypassed s read := by
    intro hmem
    apply hother
    rw [Model.getProcessId, (hr.buffered _ b (mem_bypassed hmem)).1]
    rfl
  cases h with
  | read _ _ _ hpos hends =>
      rw [ends_buildReadFromSlots hpos hcfg, LoopRest] at hends
      split at hends
      · cases hends.1
        exact absurd hb hbypassed
      · next hfull =>
          have hline : ∀ c ∈ (s.objToWr read.word).reverse, c.line = read.line :=
            fun c hc => hr.line_of_mem (List.mem_reverse.mp hc)
          rcases readLoop_durable_of_mem hline (length_bypassed s read) hfull hends hb with
            hmem | htype | hown | hd
          · exact absurd hmem hbypassed
          · rw [Model.Durable, hinit htype]
            exact Nat.zero_le _
          · exact absurd hown hother
          · exact hd

theorem MemStep.read_getProcessId (hcfg : cfg.memPoison = false) (h : MemStep cfg s (.read read rf) s')
    (a : ModelAction) : s'.getProcessId a = s.getProcessId a := by
  cases h with
  | read _ _ _ hpos hends => exact (buildReadFromSlots_observes hpos hcfg hends).getProcessId_eq a

/-- A store that has persisted takes the earlier ones of its process on its line with it. -/
theorem Model.Durable.earlier (h : s.Durable w) (hpid : s.getProcessId b = s.getProcessId w)
    (hline : b.line = w.line) (hle : b.seqNum ≤ w.seqNum) : s.Durable b := by
  unfold Model.Durable at h ⊢
  rw [hpid, hline]
  exact Nat.le_trans hle h

/-- **What another process has seen is not lost, nor what came before it on its line.** A read returns a store
of another process, which is not a `cxlmc_atomic_init`, before the clock has wrapped around. Then each byte that
is read later of this store, or of one by the same process on the same line that took an earlier number, comes
from that store or from a later one. -/
theorem seen_durable {seen : ModelAction} {n cxlMapping : Nat} {memory : Nat → Nat}
    {mutexType : MutexId → MutexType} (hcfg : cfg.memPoison = false) (hn : 1 ≤ n)
    (h₁ : Goes (MemStep cfg) (fun _ => True) (Model.init n cxlMapping memory mutexType) s)
    (hseen : MemStep cfg s (.read seen rf) s₁) (hreturned : some b ∈ rf)
    (hother : s.getProcessId b ≠ s.getProcessId seen) (hinit : b.type = .atomicInit → b.seqNum = 0)
    (hlisted : s.ListedAt read.word k w) (hpid : s.getProcessId w = s.getProcessId b) (hline : w.line = b.line)
    (hle : w.tick ≤ b.tick) (hticks : s.ticks < 2 ^ 32) (h₂ : Goes (MemStep cfg) (fun _ => True) s₁ s₂)
    (hread : MemStep cfg s₂ (.read read rf') s') (hi : i < read.size) (hwants : wants read w i = true) :
    s₂.ReadsFrom read rf' i k := by
  have hr : s.Recorded := Goes.recorded hcfg h₁ (Model.recorded_init hn)
  have hdurable : s₁.Durable b := hseen.durable_read hcfg hr hreturned hother hinit
  have hsame : ∀ c, s₁.getProcessId c = s.getProcessId c := hseen.read_getProcessId hcfg
  have hclock : b.seqNum = b.tick := hseen.seqNum_of_read hcfg hr (Goes.rising hcfg h₁).1 hticks hreturned
  have hseq : w.seqNum ≤ b.seqNum := by
    rw [hclock]
    exact Nat.le_trans w.seqNum_le hle
  have hearlier : s₁.Durable w := hdurable.earlier (by rw [hsame, hsame, hpid]) hline hseq
  exact Goes.readsFrom hcfg h₂ (hseen.recorded hcfg hr) (hseen.listedAt hcfg hlisted) hearlier hread hi
    hwants

end

/-! ## Reads after a crash of the writer -/

/-- Process 0 has crashed, and process 1 has the token. -/
def Model.lostTo (s : Model) : Model := ({ s with activeThread := 1 } : Model).crash 0

theorem goes_lostTo {s : Model} (hnone : s.crashes = ∅) (hmany : 1 < s.processCount)
    (hthreads : 1 < s.threadCount) (hpid : (s.threads 1).processId = 1) :
    Goes (MemStep .asBuilt) (fun _ => True) s s.lostTo := by
  have hswitch : MemStep .asBuilt s .yield ({ s with activeThread := 1 } : Model) :=
    .yield ⟨rfl, rfl, rfl, Nat.le_refl _, fun _ _ => rfl, fun _ => hthreads⟩
  refine (Goes.single hswitch trivial).trans (Goes.single (MemStep.crash 0 ?_ hnone hmany) trivial)
  have hself : ({ s with activeThread := 1 } : Model).processId = 1 := hpid
  rw [hself]
  decide

/-- `clflush_durable` for a store of process 0, which crashes after the flush. -/
theorem clflush_durable_afterCrash : ∃ (s s₁ s' : Model) (a : ModelAction) (rf : Slots),
    Goes (MemStep .asBuilt) (fun _ => True) (Model.init 2 4096 (fun _ => 0) (fun _ => .default)) s ∧
    MemStep .asBuilt s (.popClflush 0 a) s₁ ∧ s₁.lostTo.isCrashed 0 = true ∧
    MemStep .asBuilt s₁.lostTo (.read lossRead rf) s' ∧ s₁.lostTo.ReadsFrom lossRead rf 0 1 := by
  let flush : ModelAction := { tid := 0, type := .cacheClflush, location := 4096 }
  let s₁ := (Model.init 2 4096 (fun _ => 0) (fun _ => .default)).initialized 4096
  let s₂ := (((s₁.pushed 0 (lossStore 1)).popped 0 []).evicted (lossStore 1)).noted 0 4096 0
  let s₃ := s₂.pushed 0 flush
  let s₄ := (s₃.popped 0 []).tick.flushed s₃.nextSequenceNum flush.line
  have hbefore : Goes (MemStep .asBuilt) (fun _ => True)
      (Model.init 2 4096 (fun _ => 0) (fun _ => .default)) s₃ := by
    refine (Goes.single (MemStep.initial 4096 rfl rfl) trivial).trans ?_
    refine (Goes.single (MemStep.push (lossStore 1) rfl rfl rfl rfl) trivial).trans ?_
    refine (Goes.single (MemStep.popStore 0 (lossStore 1) [] rfl rfl) trivial).trans ?_
    exact Goes.single (MemStep.push flush rfl rfl rfl rfl) trivial
  have hflush : MemStep .asBuilt s₃ (.popClflush 0 flush) s₄ := .popClflush 0 flush [] rfl rfl
  have hcrash := goes_lostTo (s := s₄) rfl (by decide) (by decide) rfl
  obtain ⟨rf, s', hends, _⟩ := exists_ends_of_runWith (buildReadFromSlots .asBuilt lossRead) s₄.lostTo []
    (fun _ _ => true) (by decide +kernel)
  have hread : MemStep .asBuilt s₄.lostTo (.read lossRead rf) s' := .read lossRead rf rfl (by decide) hends
  let w : ModelAction := { lossStore 1 with tick := 0 }
  have hlisted : s₃.ListedAt lossRead.word 1 w := rfl
  exact ⟨s₃, s₄, s', flush, rf, hbefore, hflush, rfl, hread, clflush_durable rfl (by decide) hbefore
    hlisted (by decide) hflush rfl (by decide) hcrash hread (by decide) (by decide)⟩

/-- `seen_durable` for the two stores of process 0, which crashes after the second has been read. -/
theorem seen_durable_afterCrash : ∃ (s₁ s' : Model) (b : ModelAction) (rf rf' : Slots),
    MemStep .asBuilt lossState (.read lossRead rf) s₁ ∧ some b ∈ rf ∧ lossState.getProcessId b = 0 ∧
    s₁.lostTo.isCrashed 0 = true ∧ MemStep .asBuilt s₁.lostTo (.read lossRead rf') s' ∧
    s₁.lostTo.ReadsFrom lossRead rf' 0 1 := by
  let b : ModelAction := { lossStore 2 with tick := 1 }
  obtain ⟨⟨rf, rf', s₁⟩, s', hends, hcheck⟩ := exists_ends_of_runWith
    (do
      let rf ← buildReadFromSlots .asBuilt lossRead
      let s ← state
      update Model.lostTo
      let rf' ← buildReadFromSlots .asBuilt lossRead
      return (rf, rf', s)) lossState [1]
    (fun x _ => decide (some b ∈ x.1) && decide (x.2.2.crashes.size < maxCrashesPerExecution) &&
      x.2.2.lostTo.isCrashed 0) (by decide +kernel)
  simp only [Bool.and_eq_true, decide_eq_true_eq] at hcheck
  obtain ⟨⟨hmem, hnone⟩, hcrashed⟩ := hcheck
  obtain ⟨rf₁, s, hfirst, hrest⟩ := ends_bind_ok.mp hends
  obtain ⟨rf₂, s₂, hsecond, hpure⟩ := ends_bind_ok.mp (ends_update_bind.mp (ends_state_bind.mp hrest))
  obtain ⟨hr, rfl⟩ := ends_pure.mp hpure
  cases hr
  have hseen : MemStep .asBuilt lossState (.read lossRead rf) s₁ := .read lossRead rf rfl (by decide) hfirst
  have hread : MemStep .asBuilt s₁.lostTo (.read lossRead rf') s' := .read lossRead rf' rfl (by decide) hsecond
  have hbefore : Goes (MemStep .asBuilt) (fun _ => True) (Model.init 2 4096 (fun _ => 0) (fun _ => .default))
      lossState := by
    apply lossState_reached.preorder Goes.refl Goes.trans
    intro x e y _ hstep
    exact .single hstep.1 trivial
  obtain ⟨hthreads, _, hpids⟩ := hseen.threadCount rfl
  have hcrash : Goes (MemStep .asBuilt) (fun _ => True) s₁ s₁.lostTo := by
    apply goes_lostTo (Crashes.eq_empty_of_size hnone)
    · rw [hseen.processCount rfl]
      decide
    · exact Nat.lt_of_lt_of_le (by decide) hthreads
    · exact (hpids 1 (by decide)).trans rfl
  let w : ModelAction := { lossStore 1 with tick := 0 }
  have hlisted : lossState.ListedAt lossRead.word 1 w := rfl
  have hle : w.tick ≤ b.tick := by decide
  exact ⟨s₁, s', b, rf, rf', hseen, hmem, rfl, hcrashed, hread, seen_durable rfl (by decide) hbefore hseen
    hmem (by decide) nofun hlisted rfl rfl hle (by decide) hcrash hread (by decide) (by decide)⟩

end Cxlmc
