import CodexMonitor.History.Truncate
import CodexMonitor.Lib.Ends

namespace CodexMonitor.UnifiedExec

open History (usizeMax saturatingAdd)

/-!
# Unified exec — the capped output buffer

`core/src/unified_exec/head_tail_buffer.rs`: a buffer that keeps the beginning and the end of a
command's output and drops the middle.

* `HeadTailBuffer` — the two queues of chunks and the three counters; `pushChunk`, `drainChunks`.
* `Keeps` — what the buffer holds, given the bytes it was given since it was last empty.
* `pushChunk_keeps`, `run_keeps` — one chunk, and a run of them.
* `toBytes_run` — the bytes kept and the number of those dropped, for every run.
-/

/-- A `Vec<u8>`. -/
abbrev Chunk := List UInt8

structure HeadTailBuffer where
  maxBytes : Nat
  headBudget : Nat
  tailBudget : Nat
  head : List Chunk
  tail : List Chunk
  headBytes : Nat
  tailBytes : Nat
  omittedBytes : Nat
  deriving DecidableEq, Repr

namespace HeadTailBuffer

variable (buffer : HeadTailBuffer)

def new (maxBytes : Nat) : HeadTailBuffer where
  maxBytes := maxBytes
  headBudget := maxBytes / 2
  tailBudget := maxBytes - maxBytes / 2
  head := []
  tail := []
  headBytes := 0
  tailBytes := 0
  omittedBytes := 0

/-- The loop of `trim_tail_to_budget`, on the tail and its two counters: chunks are popped, and
    the last one is cut. -/
def trimTail : Nat → List Chunk → Nat → Nat → List Chunk × Nat × Nat
  | _, [], tailBytes, omittedBytes => ([], tailBytes, omittedBytes)
  | excess, front :: tail, tailBytes, omittedBytes =>
    if excess = 0 then (front :: tail, tailBytes, omittedBytes)
    else if front.length ≤ excess then
      trimTail (excess - front.length) tail (tailBytes - front.length)
        (saturatingAdd omittedBytes front.length)
    else (front.drop excess :: tail, tailBytes - excess, saturatingAdd omittedBytes excess)

def trimTailToBudget : HeadTailBuffer :=
  let trimmed := trimTail (buffer.tailBytes - buffer.tailBudget) buffer.tail buffer.tailBytes
    buffer.omittedBytes
  { buffer with tail := trimmed.1, tailBytes := trimmed.2.1, omittedBytes := trimmed.2.2 }

def pushToTail (chunk : Chunk) : HeadTailBuffer :=
  if buffer.tailBudget = 0 then
    { buffer with omittedBytes := saturatingAdd buffer.omittedBytes chunk.length }
  else if buffer.tailBudget ≤ chunk.length then
    -- one chunk fills the whole tail
    let kept := chunk.drop (chunk.length - buffer.tailBudget)
    { buffer with
      omittedBytes := saturatingAdd (saturatingAdd buffer.omittedBytes buffer.tailBytes)
        (chunk.length - kept.length)
      tail := [kept]
      tailBytes := kept.length }
  else
    trimTailToBudget { buffer with
      tailBytes := saturatingAdd buffer.tailBytes chunk.length
      tail := buffer.tail ++ [chunk] }

def pushChunk (chunk : Chunk) : HeadTailBuffer :=
  if buffer.maxBytes = 0 then
    { buffer with omittedBytes := saturatingAdd buffer.omittedBytes chunk.length }
  else if buffer.headBytes < buffer.headBudget then
    let remainingHead := buffer.headBudget - buffer.headBytes
    if chunk.length ≤ remainingHead then
      { buffer with
        headBytes := saturatingAdd buffer.headBytes chunk.length
        head := buffer.head ++ [chunk] }
    else
      let headPart := chunk.take remainingHead
      let filled :=
        if headPart.isEmpty then buffer
        else
          { buffer with
            headBytes := saturatingAdd buffer.headBytes headPart.length
            head := buffer.head ++ [headPart] }
      filled.pushToTail (chunk.drop remainingHead)
  else buffer.pushToTail chunk

def snapshotChunks : List Chunk := buffer.head ++ buffer.tail

def toBytes : List UInt8 := buffer.head.flatten ++ buffer.tail.flatten

/-- The buffer is empty afterwards, with its budgets as before. -/
def drainChunks : HeadTailBuffer × List Chunk :=
  ({ buffer with head := [], tail := [], headBytes := 0, tailBytes := 0, omittedBytes := 0 },
    buffer.snapshotChunks)

/-! ### What is kept -/

/-- What the buffer holds once it was given `bytes`. -/
structure Keeps (maxBytes : Nat) (bytes : List UInt8) (buffer : HeadTailBuffer) : Prop where
  maxBytes_eq : buffer.maxBytes = maxBytes
  headBudget_eq : buffer.headBudget = maxBytes / 2
  tailBudget_eq : buffer.tailBudget = maxBytes - maxBytes / 2
  head : buffer.head.flatten = bytes.take buffer.headBudget
  tail : buffer.tail.flatten = (bytes.drop buffer.headBudget).rtake buffer.tailBudget
  headBytes : buffer.headBytes = buffer.head.flatten.length
  tailBytes : buffer.tailBytes = buffer.tail.flatten.length
  accounted : buffer.omittedBytes + buffer.headBytes + buffer.tailBytes = bytes.length

variable {buffer : HeadTailBuffer} {maxBytes : Nat} {bytes : List UInt8} {chunk : Chunk}

theorem keeps_new (maxBytes : Nat) : Keeps maxBytes [] (new maxBytes) := by
  refine ⟨rfl, rfl, rfl, ?_, ?_, rfl, rfl, rfl⟩
  · simp [new]
  · simp [new]

theorem saturatingAdd_of_le {a b : Nat} (h : a + b ≤ usizeMax) : saturatingAdd a b = a + b :=
  Nat.min_eq_left h

/-- **The loop** drops the excess from the front and counts it. -/
theorem trimTail_spec (tail : List Chunk) {excess tailBytes omittedBytes : Nat}
    (hexcess : excess ≤ tail.flatten.length) (hlen : omittedBytes + excess ≤ usizeMax) :
    (trimTail excess tail tailBytes omittedBytes).1.flatten = tail.flatten.drop excess ∧
      (trimTail excess tail tailBytes omittedBytes).2 =
        (tailBytes - excess, omittedBytes + excess) := by
  induction tail generalizing excess tailBytes omittedBytes with
  | nil =>
    have hzero : excess = 0 := Nat.le_zero.mp hexcess
    subst hzero
    exact ⟨rfl, rfl⟩
  | cons front tail ih =>
    rw [List.flatten_cons, List.length_append] at hexcess
    unfold trimTail
    by_cases hzero : excess = 0
    · subst hzero
      exact ⟨rfl, rfl⟩
    · rw [if_neg hzero, List.flatten_cons]
      by_cases hfront : front.length ≤ excess
      · have hadd : saturatingAdd omittedBytes front.length = omittedBytes + front.length :=
          saturatingAdd_of_le (by omega)
        have hrest : excess - front.length ≤ tail.flatten.length := by omega
        have hmore : omittedBytes + front.length + (excess - front.length) ≤ usizeMax := by omega
        obtain ⟨hflatten, hcounts⟩ := ih hrest hmore
        rw [if_pos hfront, hadd, hflatten, hcounts]
        constructor
        · rw [List.drop_append, List.drop_of_length_le hfront, List.nil_append]
        · rw [Prod.mk.injEq]
          omega
      · have hadd : saturatingAdd omittedBytes excess = omittedBytes + excess :=
          saturatingAdd_of_le hlen
        rw [if_neg hfront, hadd]
        refine ⟨?_, rfl⟩
        have hinside : excess - front.length = 0 := by omega
        rw [List.flatten_cons, List.drop_append, hinside, List.drop_zero]

/-- Once the head is full, a chunk changes the tail and the counters only. -/
theorem Keeps.withTail {tail : List Chunk} {tailBytes omittedBytes : Nat}
    (h : Keeps maxBytes bytes buffer) (hfull : buffer.headBudget ≤ bytes.length)
    (htail : tail.flatten = (buffer.tail.flatten ++ chunk).rtake buffer.tailBudget)
    (htailBytes : tailBytes = tail.flatten.length)
    (homitted : omittedBytes + tailBytes =
      buffer.omittedBytes + buffer.tailBytes + chunk.length) :
    Keeps maxBytes (bytes ++ chunk)
      { buffer with tail := tail, tailBytes := tailBytes, omittedBytes := omittedBytes } := by
  have haccounted := h.accounted
  refine ⟨h.maxBytes_eq, h.headBudget_eq, h.tailBudget_eq, ?_, ?_, h.headBytes, htailBytes, ?_⟩
  · show buffer.head.flatten = (bytes ++ chunk).take buffer.headBudget
    rw [h.head, List.take_append_of_le_length hfull]
  · show tail.flatten = ((bytes ++ chunk).drop buffer.headBudget).rtake buffer.tailBudget
    rw [htail, List.drop_append_of_le_length hfull, h.tail, rtake_append_rtake]
  · show omittedBytes + buffer.headBytes + tailBytes = (bytes ++ chunk).length
    rw [List.length_append]
    omega

/-- **A chunk for the tail**, once the head is full. -/
theorem pushToTail_keeps (h : Keeps maxBytes bytes buffer)
    (hfull : buffer.headBudget ≤ bytes.length) (hlen : (bytes ++ chunk).length ≤ usizeMax) :
    Keeps maxBytes (bytes ++ chunk) (buffer.pushToTail chunk) := by
  have haccounted := h.accounted
  have htailBytes := h.tailBytes
  rw [List.length_append] at hlen
  unfold pushToTail
  by_cases hnone : buffer.tailBudget = 0
  · have hadd := saturatingAdd_of_le (a := buffer.omittedBytes) (b := chunk.length) (by omega)
    rw [if_pos hnone, hadd]
    refine h.withTail hfull ?_ htailBytes (by omega)
    rw [hnone, List.rtake_zero, h.tail, hnone, List.rtake_zero]
  · rw [if_neg hnone]
    by_cases hlarge : buffer.tailBudget ≤ chunk.length
    · have hkept : (chunk.drop (chunk.length - buffer.tailBudget)).length = buffer.tailBudget := by
        rw [List.length_drop]
        omega
      have hold := saturatingAdd_of_le (a := buffer.omittedBytes) (b := buffer.tailBytes)
        (by omega)
      have hadd := saturatingAdd_of_le (a := buffer.omittedBytes + buffer.tailBytes)
        (b := chunk.length - buffer.tailBudget) (by omega)
      rw [if_pos hlarge]
      simp only [hkept, hold, hadd]
      refine h.withTail hfull ?_ ?_ (by omega)
      · rw [rtake_append_of_le hlarge]
        simp [List.rtake]
      · rw [List.flatten_singleton, hkept]
    · have hadd := saturatingAdd_of_le (a := buffer.tailBytes) (b := chunk.length) (by omega)
      have hflatten : (buffer.tail ++ [chunk]).flatten = buffer.tail.flatten ++ chunk := by simp
      have hlong : (buffer.tail.flatten ++ chunk).length = buffer.tailBytes + chunk.length := by
        rw [List.length_append, htailBytes]
      have hexcess : buffer.tailBytes + chunk.length - buffer.tailBudget ≤
          (buffer.tail ++ [chunk]).flatten.length := by
        rw [hflatten, hlong]
        omega
      have hmax : buffer.omittedBytes + (buffer.tailBytes + chunk.length - buffer.tailBudget) ≤
          usizeMax := by omega
      have htrim : _ ∧ _ = (buffer.tailBytes + chunk.length - _, _) :=
        trimTail_spec (buffer.tail ++ [chunk]) hexcess hmax
      rw [if_neg hlarge, hadd]
      unfold trimTailToBudget
      simp only
      generalize trimTail _ _ _ _ = trimmed at htrim ⊢
      obtain ⟨tail, tailBytes, omittedBytes⟩ := trimmed
      obtain ⟨hkept, hcounts⟩ := htrim
      obtain ⟨rfl, rfl⟩ := Prod.mk.inj hcounts
      refine h.withTail hfull ?_ ?_ ?_
      · rw [hkept, hflatten]
        unfold List.rtake
        rw [hlong]
      · rw [hkept, List.length_drop, hflatten, hlong]
      · show buffer.omittedBytes + (buffer.tailBytes + chunk.length - buffer.tailBudget) +
          (buffer.tailBytes + chunk.length - (buffer.tailBytes + chunk.length - _)) = _
        omega

/-- **One chunk.** -/
theorem pushChunk_keeps (h : Keeps maxBytes bytes buffer)
    (hlen : (bytes ++ chunk).length ≤ usizeMax) :
    Keeps maxBytes (bytes ++ chunk) (buffer.pushChunk chunk) := by
  have haccounted := h.accounted
  have hheadBytes : buffer.headBytes = min buffer.headBudget bytes.length := by
    rw [h.headBytes, h.head, List.length_take]
  have hbound := hlen
  rw [List.length_append] at hbound
  unfold pushChunk
  by_cases hzero : buffer.maxBytes = 0
  · have hmax : maxBytes = 0 := h.maxBytes_eq.symm.trans hzero
    have hhead : buffer.headBudget = 0 := by rw [h.headBudget_eq, hmax]
    have htail : buffer.tailBudget = 0 := by rw [h.tailBudget_eq, hmax]
    have hadd := saturatingAdd_of_le (a := buffer.omittedBytes) (b := chunk.length) (by omega)
    rw [if_pos hzero, hadd]
    refine h.withTail (by omega) ?_ h.tailBytes (by omega)
    rw [htail, List.rtake_zero, h.tail, htail, List.rtake_zero]
  · rw [if_neg hzero]
    by_cases hspace : buffer.headBudget ≤ buffer.headBytes
    · rw [if_neg (by omega)]
      exact pushToTail_keeps h (by omega) hlen
    · rw [if_pos (by omega)]
      -- the head is not full: nothing has been dropped and the tail is empty
      have hshort : bytes.length < buffer.headBudget := by omega
      have hhead : buffer.head.flatten = bytes := by
        rw [h.head, List.take_of_length_le (by omega)]
      have hfilled : ∀ part : Chunk, bytes.length + part.length ≤ buffer.headBudget →
          bytes.length + part.length ≤ usizeMax →
          Keeps maxBytes (bytes ++ part) { buffer with
            headBytes := saturatingAdd buffer.headBytes part.length
            head := buffer.head ++ [part] } := by
        intro part hpart hmax
        have hadd := saturatingAdd_of_le (a := buffer.headBytes) (b := part.length) (by omega)
        have hflatten : (buffer.head ++ [part]).flatten = bytes ++ part := by simp [hhead]
        have hlong : (bytes ++ part).length ≤ buffer.headBudget := by
          rw [List.length_append]
          exact hpart
        refine ⟨h.maxBytes_eq, h.headBudget_eq, h.tailBudget_eq, ?_, ?_, ?_, h.tailBytes, ?_⟩
        · show (buffer.head ++ [part]).flatten = (bytes ++ part).take buffer.headBudget
          rw [hflatten, List.take_of_length_le hlong]
        · show buffer.tail.flatten = ((bytes ++ part).drop buffer.headBudget).rtake _
          rw [h.tail, List.drop_of_length_le hlong, List.drop_of_length_le (by omega)]
        · show saturatingAdd buffer.headBytes part.length = (buffer.head ++ [part]).flatten.length
          rw [hadd, hflatten, List.length_append]
          omega
        · show buffer.omittedBytes + saturatingAdd buffer.headBytes part.length +
            buffer.tailBytes = _
          rw [hadd, List.length_append]
          omega
      by_cases hfits : chunk.length ≤ buffer.headBudget - buffer.headBytes
      · rw [if_pos hfits]
        exact hfilled chunk (by omega) hbound
      · have hpart : (chunk.take (buffer.headBudget - buffer.headBytes)).length =
            buffer.headBudget - buffer.headBytes := by
          rw [List.length_take]
          omega
        have hsome : (chunk.take (buffer.headBudget - buffer.headBytes)).isEmpty = false := by
          rw [List.isEmpty_eq_false_iff, ← List.length_pos_iff, hpart]
          omega
        have hwhole : bytes ++ chunk.take (buffer.headBudget - buffer.headBytes) ++
            chunk.drop (buffer.headBudget - buffer.headBytes) = bytes ++ chunk := by
          rw [List.append_assoc, List.take_append_drop]
        have hfirst := hfilled (chunk.take (buffer.headBudget - buffer.headBytes)) (by omega)
          (by omega)
        have hfull : buffer.headBudget ≤
            (bytes ++ chunk.take (buffer.headBudget - buffer.headBytes)).length := by
          rw [List.length_append, hpart]
          omega
        have hrest := pushToTail_keeps hfirst hfull (hwhole ▸ hlen)
        rw [hwhole] at hrest
        rw [if_neg hfits]
        simp only [hsome, Bool.false_eq_true, if_false]
        exact hrest

/-! ### Runs -/

/-- A call that changes the buffer. -/
inductive Call
  | pushChunk (chunk : Chunk)
  | drainChunks
  deriving DecidableEq, Repr

def apply (buffer : HeadTailBuffer) : Call → HeadTailBuffer
  | .pushChunk chunk => buffer.pushChunk chunk
  | .drainChunks => buffer.drainChunks.1

def run (buffer : HeadTailBuffer) (calls : List Call) : HeadTailBuffer :=
  calls.foldl apply buffer

/-- The bytes given since the buffer was created or last drained. -/
def given (bytes : List UInt8) : Call → List UInt8
  | .pushChunk chunk => bytes ++ chunk
  | .drainChunks => []

def pushed (calls : List Call) : List UInt8 := calls.foldl given []

/-- The budgets stay as they are. -/
def SameBudgets (before after : HeadTailBuffer) : Prop :=
  after.maxBytes = before.maxBytes ∧ after.headBudget = before.headBudget ∧
    after.tailBudget = before.tailBudget

theorem sameBudgets_pushToTail (buffer : HeadTailBuffer) (chunk : Chunk) :
    SameBudgets buffer (buffer.pushToTail chunk) := by
  unfold pushToTail
  split
  · exact ⟨rfl, rfl, rfl⟩
  · split
    · exact ⟨rfl, rfl, rfl⟩
    · exact ⟨rfl, rfl, rfl⟩

theorem sameBudgets_apply (buffer : HeadTailBuffer) (call : Call) :
    SameBudgets buffer (buffer.apply call) := by
  cases call with
  | drainChunks => exact ⟨rfl, rfl, rfl⟩
  | pushChunk chunk =>
    show SameBudgets buffer (buffer.pushChunk chunk)
    unfold pushChunk
    split
    · exact ⟨rfl, rfl, rfl⟩
    · split
      · simp only
        split
        · exact ⟨rfl, rfl, rfl⟩
        · split
          · exact sameBudgets_pushToTail _ _
          · exact sameBudgets_pushToTail { buffer with headBytes := _, head := _ } _
      · exact sameBudgets_pushToTail _ _

theorem sameBudgets_run (buffer : HeadTailBuffer) (calls : List Call) :
    SameBudgets buffer (buffer.run calls) := by
  induction calls generalizing buffer with
  | nil => exact ⟨rfl, rfl, rfl⟩
  | cons call calls ih =>
    obtain ⟨hmax, hhead, htail⟩ := ih (buffer.apply call)
    obtain ⟨hmax', hhead', htail'⟩ := sameBudgets_apply buffer call
    exact ⟨hmax.trans hmax', hhead.trans hhead', htail.trans htail'⟩

/-- A drained buffer is as it was created. -/
theorem drain_run (maxBytes : Nat) (calls : List Call) :
    ((new maxBytes).run calls).drainChunks.1 = new maxBytes := by
  obtain ⟨hmax, hhead, htail⟩ := sameBudgets_run (new maxBytes) calls
  unfold drainChunks
  rw [hmax, hhead, htail]
  rfl

/-- **A run**: the buffer keeps what it was given since it was last empty. -/
theorem run_keeps (maxBytes : Nat) (calls : List Call)
    (hlen : (pushed calls).length ≤ usizeMax) :
    Keeps maxBytes (pushed calls) ((new maxBytes).run calls) := by
  induction calls using List.reverseRecOn with
  | nil => exact keeps_new maxBytes
  | append_singleton calls call ih =>
    have hrun : (new maxBytes).run (calls ++ [call]) = ((new maxBytes).run calls).apply call :=
      List.foldl_concat _ _ _ _
    have hpushed : pushed (calls ++ [call]) = given (pushed calls) call :=
      List.foldl_concat _ _ _ _
    rw [hrun, hpushed]
    rw [hpushed] at hlen
    cases call with
    | drainChunks =>
      have hdrained := drain_run maxBytes calls
      show Keeps maxBytes [] ((new maxBytes).run calls).drainChunks.1
      rw [hdrained]
      exact keeps_new maxBytes
    | pushChunk chunk =>
      have hgrown : (pushed calls ++ chunk).length ≤ usizeMax := hlen
      rw [List.length_append] at hgrown
      exact pushChunk_keeps (ih (by omega)) hlen

theorem Keeps.toBytes_eq (h : Keeps maxBytes bytes buffer) :
    buffer.toBytes = bothEnds (maxBytes / 2) (maxBytes - maxBytes / 2) bytes := by
  unfold toBytes bothEnds
  rw [h.head, h.tail, h.headBudget_eq, h.tailBudget_eq]

theorem Keeps.omittedBytes_eq (h : Keeps maxBytes bytes buffer) :
    buffer.omittedBytes = bytes.length - buffer.toBytes.length := by
  have haccounted := h.accounted
  unfold toBytes
  rw [List.length_append, ← h.headBytes, ← h.tailBytes]
  omega

/-- **The buffer keeps the two ends of the stream**: after any calls the bytes held are the first
    and the last ones of those given since the buffer was last empty, as many as the budgets allow,
    the number of the others is counted, and neither depends on the chunks. -/
theorem toBytes_run (maxBytes n : Nat) (calls : List Call) (hn : (pushed calls).length = n)
    (hlen : n < usizeMax) :
    ((new maxBytes).run calls).toBytes =
        (pushed calls).take (min n (new maxBytes).headBudget) ++
          (pushed calls).rtake
            (min (n - min n (new maxBytes).headBudget) (new maxBytes).tailBudget) ∧
      ((new maxBytes).run calls).omittedBytes =
        n - ((new maxBytes).run calls).toBytes.length ∧
      ∀ calls', pushed calls' = pushed calls →
        ((new maxBytes).run calls').toBytes = ((new maxBytes).run calls).toBytes ∧
          ((new maxBytes).run calls').omittedBytes =
            ((new maxBytes).run calls).omittedBytes := by
  subst hn
  have hkeeps := run_keeps maxBytes calls hlen.le
  refine ⟨?_, hkeeps.omittedBytes_eq, ?_⟩
  · rw [hkeeps.toBytes_eq, bothEnds_eq]
    rfl
  · intro calls' hsame
    have hkeeps' := run_keeps maxBytes calls' (hsame ▸ hlen.le)
    have hbytes : ((new maxBytes).run calls').toBytes = ((new maxBytes).run calls).toBytes := by
      rw [hkeeps'.toBytes_eq, hkeeps.toBytes_eq, hsame]
    exact ⟨hbytes, by rw [hkeeps'.omittedBytes_eq, hkeeps.omittedBytes_eq, hbytes, hsame]⟩

/-- Five bytes in two chunks, after a drain, in a buffer of four. -/
theorem toBytes_run_fiveBytes :
    ((new 4).run [.pushChunk [9, 9, 9, 9, 9, 9], .drainChunks, .pushChunk [1, 2, 3],
        .pushChunk [4, 5]]).toBytes = [1, 2, 4, 5] ∧
      ((new 4).run [.pushChunk [9, 9, 9, 9, 9, 9], .drainChunks, .pushChunk [1, 2, 3],
        .pushChunk [4, 5]]).omittedBytes = 1 := by
  obtain ⟨hbytes, homitted, -⟩ := toBytes_run 4 5
    [.pushChunk [9, 9, 9, 9, 9, 9], .drainChunks, .pushChunk [1, 2, 3], .pushChunk [4, 5]]
    rfl (by decide)
  refine ⟨hbytes, ?_⟩
  rw [homitted, hbytes]
  rfl

end HeadTailBuffer

end CodexMonitor.UnifiedExec
