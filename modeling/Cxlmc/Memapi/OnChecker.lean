import Cxlmc.Memapi.Copy
import Cxlmc.Owned.Run

/-!
# The string functions on the checker

`cxlmc_memcpy` and `bzero` are called by the program, and each of their accesses goes through the store buffer
and the lists. A thread that has the memory to itself sees it as flat, so whatever code it goes through there
does what the code does on a flat memory (`IsRun.load_after`). For the two loops this says what a load after
them returns: what the source held before the copy (`memcpy_own`), and zero (`bzero_own`).
-/

namespace Cxlmc

/-! ## The loops as clients -/

/-- `for(unsigned i=0;i<n;)` of the four loops, in at most `rounds` rounds, with the calls that a round makes for
its width and its `i`; the result is the last `i`. -/
def chunkClient (addrs : List Nat) (calls : Nat → Nat → Client FlatMemory.Call Nat Unit) (n : Nat) :
    (rounds : Nat) → (i : Nat) → Client FlatMemory.Call Nat Nat
  | 0, i => pure i
  | rounds + 1, i =>
      if i < n then do
        calls (chunkWidth addrs n i) i
        chunkClient addrs calls n rounds ((i + chunkWidth addrs n i) % 2 ^ 32)
      else pure i

/-- `cxlmc_loadN(src + i)` and `cxlmc_storeN(dst + i)`. -/
def copyCalls (dst src width i : Nat) : Client FlatMemory.Call Nat Unit := do
  let val ← Client.op (.load (src + i) width)
  let _ ← Client.op (.store (dst + i) width val)
  return ()

/-- `cxlmc_storeN(dst + i)`. -/
def setCalls (dst : Nat) (val : Nat → Nat) (width i : Nat) : Client FlatMemory.Call Nat Unit := do
  let _ ← Client.op (.store (dst + i) width (val width))
  return ()

def memcpyClient (dst src n rounds : Nat) : Client FlatMemory.Call Nat Nat :=
  chunkClient [src, dst] (copyCalls dst src) n rounds 0

def bzeroClient (dst n rounds : Nat) : Client FlatMemory.Call Nat Nat :=
  chunkClient [dst] (setCalls dst fun _ => 0) n rounds 0

section

variable {addrs : List Nat} {calls : Nat → Nat → Client FlatMemory.Call Nat Unit}
  {access : Nat → LoopState → LoopState} {n : Nat}

/-- The client of a loop does what the loop does. -/
theorem chunkClient_eval
    (h : ∀ w s, ((calls w s.i).eval FlatMemory.reply s.memory).1 = (access w s).memory) (rounds : Nat)
    (s : LoopState) :
    (chunkClient addrs calls n rounds s.i).eval FlatMemory.reply s.memory =
      ((chunkLoop addrs access n rounds s).memory, (chunkLoop addrs access n rounds s).i) := by
  induction rounds generalizing s with
  | zero => rfl
  | succ rounds ih =>
      unfold chunkLoop at ih ⊢
      rw [chunkClient, whileLoop]
      by_cases hi : s.i < n
      · have hnext := ih (chunkRound addrs access n s)
        rw [if_pos hi, if_pos (decide_eq_true hi), Client.eval_bind, h, ← hnext]
        rfl
      · rw [if_neg hi, if_neg (by simpa using hi)]
        rfl

theorem memcpyClient_eval (dst src rounds : Nat) (memory : FlatMemory) :
    (memcpyClient dst src n rounds).eval FlatMemory.reply memory =
      ((cxlmcMemcpy dst src n memory rounds).memory, (cxlmcMemcpy dst src n memory rounds).i) :=
  chunkClient_eval (fun _ _ => rfl) rounds (.start memory)

theorem bzeroClient_eval (dst rounds : Nat) (memory : FlatMemory) :
    (bzeroClient dst n rounds).eval FlatMemory.reply memory =
      ((bzero dst n memory rounds).memory, (bzero dst n memory rounds).i) :=
  chunkClient_eval (fun _ _ => rfl) rounds (.start memory)

end

/-! ## What the loops leave behind -/

section

variable {dst src n : Nat} {memory : FlatMemory}

/-- What the copy has done, whether it has come to its end or not. -/
theorem cxlmcMemcpy_copiedTo (hfits : FitsCounter [src, dst] n) (rounds : Nat) :
    CopiedTo dst src memory (cxlmcMemcpy dst src n memory rounds) ∧
      (cxlmcMemcpy dst src n memory rounds).i ≤ n := by
  refine (chunkLoop_rule (P := fun s => CopiedTo dst src memory s ∧ s.i ≤ n) hfits ?_ (Nat.zero_le n)
    ⟨copiedTo_start, Nat.zero_le n⟩).2 rounds
  intro s _ hle hs
  exact ⟨hs.1.access (chunkWidth_dvd List.mem_cons_self)
    (chunkWidth_dvd (List.mem_cons_of_mem _ List.mem_cons_self)), hle⟩

/-- A load from the copy, where the copy does not overwrite what it still has to read. -/
theorem CopiedTo.load {s : LoopState} {addr width : Nat} (hs : CopiedTo dst src memory s) (hi : s.i = n)
    (hapart : src + n ≤ dst ∨ dst ≤ src) (hlo : dst ≤ addr) (hhi : addr + width ≤ dst + n) :
    s.memory.load addr width = memory.load (src + (addr - dst)) width := by
  apply FlatMemory.load_congr
  intro j hj
  have haddr : addr + j = dst + (addr - dst + j) := by omega
  rw [haddr, hs.copied _ (by omega), copiedFrom_of_lt (by omega), Nat.add_assoc]

/-- What `bzero` has done, whether it has come to its end or not. -/
theorem bzero_zeroes (hfits : FitsCounter [dst] n) (rounds : Nat) :
    (∀ j, j < (bzero dst n memory rounds).i → (bzero dst n memory rounds).memory (dst + j) = 0) ∧
      (bzero dst n memory rounds).i ≤ n := by
  refine (chunkLoop_rule (P := fun s => (∀ j, j < s.i → s.memory (dst + j) = 0) ∧ s.i ≤ n) hfits ?_
    (Nat.zero_le n) ⟨fun j hj => absurd hj (Nat.not_lt_zero j), Nat.zero_le n⟩).2 rounds
  intro s _ hle hs
  refine ⟨?_, hle⟩
  intro j hj
  show s.memory.store (dst + s.i) (chunkWidth [dst] n s.i) 0 (dst + j) = 0
  rw [FlatMemory.store_apply]
  split
  · rw [Nat.zero_div]
    rfl
  · next hout =>
      have hj : j < s.i + chunkWidth [dst] n s.i := hj
      exact hs.1 j (by omega)

end

/-! ## Runs -/

theorem accesses_append (t : ThreadId) (region : Nat → Bool) (steps steps' : List (Model × Label × Model)) :
    accesses t region (steps ++ steps') = accesses t region steps ++ accesses t region steps' :=
  List.flatMap_append

section

variable {cfg : Config} {n cxlMapping : Nat} {memory : Nat → Nat} {mutexType : MutexId → MutexType}
  {tr : List (Model × Label)} {s' : Model} {t : ThreadId} {region : Nat → Bool}
  {pre mid post : List (Model × Label × Model)} {y : Model × Label × Model} {a : ModelAction} {v : Nat}
  {rf : Slots} {dst src len rounds i : Nat}

/-- **Code on own memory.** Where a thread that has the memory to itself goes through a piece of code, the code
ends as it does on a flat memory, and the next load of the thread finds what it has left there. -/
theorem IsRun.load_after {α : Type} {code : Client FlatMemory.Call Nat α} {result : α}
    (hcfg : cfg.memPoison = false) (hrun : IsRun cfg n cxlMapping memory mutexType tr s')
    (hkeeps : ∀ x ∈ stepsOf tr s', x.2.1.event.KeepsTo t region)
    (hlive : ∀ x ∈ stepsOf tr s', x.2.1.tid = t → x.2.1.event.accesses region ≠ [] →
      x.1.isCrashed x.1.processId = false)
    (heq : stepsOf tr s' = pre ++ (mid ++ y :: post))
    (hcode : code.follow (accesses t region mid) = some result) (ht : y.2.1.tid = t)
    (hev : y.2.1.event = .executed a v rf) (hload : a.isLoad = true) (htouches : a.Touches region = true) :
    result = (code.eval FlatMemory.reply (ownMemory memory t region pre)).2 ∧
      v = (code.eval FlatMemory.reply (ownMemory memory t region pre)).1.load a.location a.size := by
  have hreplies := hrun.replies hcfg hkeeps hlive
  rw [heq, accesses_append, accesses_append] at hreplies
  obtain ⟨_, hreplies⟩ := replies_append.mp hreplies
  change Replies FlatMemory.reply _ (ownMemory memory t region pre) at hreplies
  obtain ⟨hmid, hrest⟩ := replies_append.mp hreplies
  have haccess : accesses t region (y :: post) = (.load a.location a.size, v) :: accesses t region post := by
    rw [accesses, List.flatMap_cons, if_pos ht, hev, Event.accesses, if_pos htouches, if_pos hload]
    rfl
  rw [haccess] at hrest
  rw [Client.follow_eval hcode hmid]
  exact ⟨rfl, hrest.1.symm⟩

/-- **A copy on the checker.** Where a thread that has the memory to itself goes through the loop of
`cxlmc_memcpy`, its next load from the destination returns what the source held before. -/
theorem memcpy_own (hcfg : cfg.memPoison = false) (hrun : IsRun cfg n cxlMapping memory mutexType tr s')
    (hkeeps : ∀ x ∈ stepsOf tr s', x.2.1.event.KeepsTo t region)
    (hlive : ∀ x ∈ stepsOf tr s', x.2.1.tid = t → x.2.1.event.accesses region ≠ [] →
      x.1.isCrashed x.1.processId = false)
    (heq : stepsOf tr s' = pre ++ (mid ++ y :: post))
    (hcopy : (memcpyClient dst src len rounds).follow (accesses t region mid) = some i) (hdone : len ≤ i)
    (hlen : len ≤ 2 ^ 32 - 8) (hapart : src + len ≤ dst ∨ dst ≤ src) (ht : y.2.1.tid = t)
    (hev : y.2.1.event = .executed a v rf) (hload : a.isLoad = true) (htouches : a.Touches region = true)
    (hlo : dst ≤ a.location) (hhi : a.location + a.size ≤ dst + len) :
    v = (ownMemory memory t region pre).load (src + (a.location - dst)) a.size := by
  obtain ⟨hi, hv⟩ := hrun.load_after hcfg hkeeps hlive heq hcopy ht hev hload htouches
  rw [memcpyClient_eval] at hi hv
  have hfits : FitsCounter [src, dst] len := .of_le hlen
  obtain ⟨hcopied, hle⟩ : CopiedTo dst src (ownMemory memory t region pre)
      (cxlmcMemcpy dst src len (ownMemory memory t region pre) rounds) ∧ _ := cxlmcMemcpy_copiedTo hfits rounds
  rw [hv]
  exact hcopied.load (Nat.le_antisymm hle (hdone.trans (Nat.le_of_eq hi))) hapart hlo hhi

/-- **`bzero` on the checker.** Where a thread that has the memory to itself goes through the loop of `bzero`, its
next load from there returns zero. -/
theorem bzero_own (hcfg : cfg.memPoison = false) (hrun : IsRun cfg n cxlMapping memory mutexType tr s')
    (hkeeps : ∀ x ∈ stepsOf tr s', x.2.1.event.KeepsTo t region)
    (hlive : ∀ x ∈ stepsOf tr s', x.2.1.tid = t → x.2.1.event.accesses region ≠ [] →
      x.1.isCrashed x.1.processId = false)
    (heq : stepsOf tr s' = pre ++ (mid ++ y :: post))
    (hzero : (bzeroClient dst len rounds).follow (accesses t region mid) = some i) (hdone : len ≤ i)
    (hlen : len ≤ 2 ^ 32 - 8) (ht : y.2.1.tid = t) (hev : y.2.1.event = .executed a v rf)
    (hload : a.isLoad = true) (htouches : a.Touches region = true) (hlo : dst ≤ a.location)
    (hhi : a.location + a.size ≤ dst + len) : v = 0 := by
  obtain ⟨hi, hv⟩ := hrun.load_after hcfg hkeeps hlive heq hzero ht hev hload htouches
  rw [bzeroClient_eval] at hi hv
  have hfits : FitsCounter [dst] len := .of_le hlen
  obtain ⟨hzeroes, hle⟩ : (∀ j, j < (bzero dst len (ownMemory memory t region pre) rounds).i →
      (bzero dst len (ownMemory memory t region pre) rounds).memory (dst + j) = 0) ∧ _ :=
    bzero_zeroes hfits rounds
  rw [hv]
  apply FlatMemory.load_eq_zero
  intro j hj
  have haddr : a.location + j = dst + (a.location - dst + j) := by omega
  rw [haddr]
  exact hzeroes _ (by omega)

end

/-- The words of the two runs below. -/
def stringRegion (x : Nat) : Bool := decide (8192 ≤ x ∧ x < 8216)

/-- It loads 4 bytes at `addr`, and they are `v`. -/
def Event.loadsWord (addr v : Nat) : Event → Bool
  | executed a w _ => a.isLoad && decide (a.location = addr ∧ a.size = 4 ∧ w = v)
  | _ => false

theorem Event.loadsWord_spec {e : Event} {addr v : Nat} (h : e.loadsWord addr v = true) :
    ∃ a rf, e = .executed a v rf ∧ a.isLoad = true ∧ a.location = addr ∧ a.size = 4 := by
  cases e with
  | executed a w rf =>
      simp only [loadsWord, Bool.and_eq_true, decide_eq_true_eq] at h
      obtain ⟨hload, hloc, hsize, rfl⟩ := h
      exact ⟨a, rf, rfl, hload, hloc, hsize⟩
  | _ => cases h

/-- Thread 0 goes through the code between the steps `i` and `k`, which ends with `result`, and the last step is
the load. -/
def loadsAfter (code : Client FlatMemory.Call Nat Nat) (result i k addr v : Nat)
    (steps : List (Model × Label × Model)) : Bool :=
  match steps.drop k with
  | [y] =>
      decide (code.follow (accesses 0 stringRegion ((steps.take k).drop i)) = some result ∧ y.2.1.tid = 0) &&
        y.2.1.event.loadsWord addr v
  | _ => false

theorem loadsAfter_spec {code : Client FlatMemory.Call Nat Nat} {result i k addr v : Nat}
    {steps : List (Model × Label × Model)} (h : loadsAfter code result i k addr v steps = true) :
    code.follow (accesses 0 stringRegion ((steps.take k).drop i)) = some result ∧
      ∃ y a rf, steps = (steps.take k).take i ++ ((steps.take k).drop i ++ [y]) ∧ y.2.1.tid = 0 ∧
        y.2.1.event = .executed a v rf ∧ a.isLoad = true ∧ a.location = addr ∧ a.size = 4 := by
  unfold loadsAfter at h
  split at h
  · next y hlast =>
      simp only [Bool.and_eq_true, decide_eq_true_eq] at h
      obtain ⟨⟨hfollow, htid⟩, hloads⟩ := h
      obtain ⟨a, rf, hev, hload, hloc, hsize⟩ := Event.loadsWord_spec hloads
      refine ⟨hfollow, y, a, rf, ?_, htid, hev, hload, hloc, hsize⟩
      rw [← hlast, ← List.append_assoc, List.take_append_drop, List.take_append_drop]
  · cases h

theorem touches_stringRegion {a : ModelAction} (hlo : 8192 ≤ a.location) (hhi : a.location < 8216)
    (hsize : a.size = 4) : a.Touches stringRegion = true := by
  apply ModelAction.touches_iff.mpr
  exact ⟨a.location, ⟨Nat.le_refl _, by omega⟩, decide_eq_true ⟨hlo, hhi⟩⟩

/-- Thread 0 passes the token, process 1 stores to another word three times and passes it back, and a load of
thread 0 there crashes process 1. -/
def crashOther : List (Input × List Nat) :=
  [({ call := .schedYield }, []),
   ({ call := .store 4096 .w64 1 }, []), ({}, []), ({}, []),
   ({ call := .store 4096 .w64 2 }, []), ({}, []), ({}, []),
   ({ call := .store 4096 .w64 3 }, []), ({ rand := 1, random := 2 }, []), ({}, []), ({}, []), ({}, []),
   ({ call := .schedYield }, []), ({}, []), ({}, []),
   ({ call := .load 4096 .w64 }, []), ({}, [0, 1]), ({}, [])]

/-- Thread 0 stores to two words. -/
def storesOwn : List (Input × List Nat) :=
  [({ call := .store 8196 .w32 7 }, []), ({}, []), ({}, []),
   ({ call := .store 8200 .w32 9 }, []), ({}, []), ({}, [])]

/-- Thread 0 goes through the loop of `cxlmc_memcpy` for the two words, with process 1 between the two rounds, and
loads the second word of the copy. -/
def copyOwnBytes : List (Input × List Nat) :=
  storesOwn.append <| List.append
    [({ call := .load 8196 .w32 }, []), ({}, []), ({}, []),
     ({ call := .store 8204 .w32 7 }, []), ({}, []), ({}, [])] <| crashOther.append
    [({ call := .load 8200 .w32 }, []), ({}, []), ({}, []),
     ({ call := .store 8208 .w32 9 }, []), ({}, []), ({}, []),
     ({ call := .load 8208 .w32 }, []), ({}, [])]

/-- `memcpy_own` on the run of `copyOwnBytes`. -/
theorem memcpy_own_copyOwnBytes : ∃ tr s pre mid y a rf,
    IsRun .asBuilt 2 4096 (fun _ => 0) (fun _ => .default) tr s ∧ s.isCrashed 1 = true ∧
    stepsOf tr s = pre ++ (mid ++ [y]) ∧ (accesses 0 stringRegion mid).length = 4 ∧
    y.2.1.event = .executed a 9 rf ∧ a.location = 8208 ∧
    9 = (ownMemory (fun _ => 0) 0 stringRegion pre).load 8200 4 := by
  obtain ⟨tr, s, hrun, hcheck⟩ := exists_run_of_replay .asBuilt
    (Model.init 2 4096 (fun _ => 0) (fun _ => .default)) copyOwnBytes
    (fun tr s => loadsAfter (memcpyClient 8204 8196 8 8) 8 6 37 8208 9 (stepsOf tr s) &&
      decide (s.isCrashed 1 = true ∧
        (accesses 0 stringRegion (((stepsOf tr s).take 37).drop 6)).length = 4) &&
      livesThrough 0 stringRegion (stepsOf tr s) &&
      (stepsOf tr s).all fun x => decide (x.2.1.event.KeepsTo 0 stringRegion)) (by decide +kernel)
  simp only [Bool.and_eq_true, List.all_eq_true, decide_eq_true_eq, livesThrough] at hcheck
  obtain ⟨⟨⟨hcopies, hcrashed, hcount⟩, hlives⟩, hkeeps⟩ := hcheck
  have hrun' : IsRun .asBuilt 2 4096 (fun _ => 0) (fun _ => .default) tr s := ⟨by decide, hrun⟩
  obtain ⟨hfollow, y, a, rf, hsteps, htid, hev, hload, hloc, hsize⟩ := loadsAfter_spec hcopies
  have hvalue := memcpy_own rfl hrun' hkeeps hlives hsteps hfollow (by decide) (by decide) (by decide) htid hev
    hload (touches_stringRegion (by omega) (by omega) hsize) (by omega) (by omega)
  rw [hloc, hsize] at hvalue
  exact ⟨tr, s, _, _, y, a, rf, hrun', hcrashed, hsteps, hcount, hev, hloc, hvalue⟩

/-- Thread 0 goes through the loop of `bzero` for the two words, with process 1 between the two rounds, and loads
the second word. -/
def zeroOwnBytes : List (Input × List Nat) :=
  storesOwn.append <| List.append
    [({ call := .store 8196 .w32 0 }, []), ({}, []), ({}, [])] <| crashOther.append
    [({ call := .store 8200 .w32 0 }, []), ({}, []), ({}, []),
     ({ call := .load 8200 .w32 }, []), ({}, [])]

/-- `bzero_own` on the run of `zeroOwnBytes`. -/
theorem bzero_own_zeroOwnBytes : ∃ tr s pre mid y a v rf,
    IsRun .asBuilt 2 4096 (fun _ => 0) (fun _ => .default) tr s ∧ s.isCrashed 1 = true ∧
    stepsOf tr s = pre ++ (mid ++ [y]) ∧ (accesses 0 stringRegion mid).length = 2 ∧
    (ownMemory (fun _ => 0) 0 stringRegion pre).load 8200 4 = 9 ∧
    y.2.1.event = .executed a v rf ∧ a.isLoad = true ∧ a.location = 8200 ∧ v = 0 := by
  obtain ⟨tr, s, hrun, hcheck⟩ := exists_run_of_replay .asBuilt
    (Model.init 2 4096 (fun _ => 0) (fun _ => .default)) zeroOwnBytes
    (fun tr s => loadsAfter (bzeroClient 8196 8 8) 8 6 31 8200 0 (stepsOf tr s) &&
      decide (s.isCrashed 1 = true ∧
        (accesses 0 stringRegion (((stepsOf tr s).take 31).drop 6)).length = 2 ∧
        (ownMemory (fun _ => 0) 0 stringRegion (((stepsOf tr s).take 31).take 6)).load 8200 4 = 9) &&
      livesThrough 0 stringRegion (stepsOf tr s) &&
      (stepsOf tr s).all fun x => decide (x.2.1.event.KeepsTo 0 stringRegion)) (by decide +kernel)
  simp only [Bool.and_eq_true, List.all_eq_true, decide_eq_true_eq, livesThrough] at hcheck
  obtain ⟨⟨⟨hzeroes, hcrashed, hcount, hbefore⟩, hlives⟩, hkeeps⟩ := hcheck
  have hrun' : IsRun .asBuilt 2 4096 (fun _ => 0) (fun _ => .default) tr s := ⟨by decide, hrun⟩
  obtain ⟨hfollow, y, a, rf, hsteps, htid, hev, hload, hloc, hsize⟩ := loadsAfter_spec hzeroes
  have hvalue := bzero_own rfl hrun' hkeeps hlives hsteps hfollow (by decide) (by decide) htid hev hload
    (touches_stringRegion (by omega) (by omega) hsize) (by omega) (by omega)
  exact ⟨tr, s, _, _, y, a, 0, rf, hrun', hcrashed, hsteps, hcount, hbefore, hev, hload, hloc, hvalue⟩

end Cxlmc
