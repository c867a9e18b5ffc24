import Mathlib.Data.List.Basic

namespace CodexMonitor

/-!
# Pairing — calls and the outputs that answer them

A log holds calls and outputs.  A call awaits a key and an output answers one; several calls may
await the same key and several outputs may answer it, in any order.

* `Pairing` — what the elements of a log await and answer, and the output to supply for a key.
* `complete` — behind each call without an output stands a supplied one.
* `prune` — the outputs without a call are dropped, but for the exempt ones.
* `normalize` — the two in this order; `Paired` is what it establishes, and what it leaves alone.
* `Matched`, `Once` — each key that is awaited is awaited and answered once.
* `Once.without_partner` — this stays so when an element goes together with its `partner`.
* `insertBehind` — insertion at indices that were collected before, the last one first.
-/

/-! ### Insertion at collected indices -/

section Insertion

variable {α : Type*}

/-- Each new element is inserted behind the index it was collected for, the last entry first. -/
def insertBehind (items : List α) (entries : List (Nat × α)) : List α :=
  entries.reverse.foldl (fun items entry => items.insertIdx (entry.1 + 1) entry.2) items

/-- The entries that are collected for the elements at and behind the index `n`. -/
def insertionsFrom (f : α → Option α) (n : Nat) (items : List α) : List (Nat × α) :=
  (items.zipIdx n).filterMap fun entry => (f entry.1).map fun new => (entry.2, new)

theorem insertIdx_length_append (front back : List α) (new : α) :
    (front ++ back).insertIdx front.length new = front ++ new :: back := by
  induction front with
  | nil => rfl
  | cons a front ih =>
    simp only [List.cons_append, List.length_cons, List.insertIdx_succ_cons, ih]

theorem flatMap_filter_eq {β : Type*} (p : α → Bool) (f : α → List β) (items : List α) :
    (items.filter p).flatMap f = items.flatMap fun item => if p item then f item else [] := by
  induction items with
  | nil => rfl
  | cons item items ih =>
    rw [List.flatMap_cons, ← ih]
    by_cases hp : p item = true
    · rw [List.filter_cons_of_pos hp, List.flatMap_cons, if_pos hp]
    · rw [List.filter_cons_of_neg hp, if_neg hp, List.nil_append]

theorem insertBehind_insertionsFrom (f : α → Option α) (front items : List α) :
    insertBehind (front ++ items) (insertionsFrom f front.length items) =
      front ++ items.flatMap fun item => item :: (f item).toList := by
  induction items generalizing front with
  | nil => rfl
  | cons item items ih =>
    have hrest := ih (front ++ [item])
    rw [List.append_assoc, List.singleton_append, List.length_append, List.length_singleton]
      at hrest
    unfold insertionsFrom at hrest ⊢
    rw [List.zipIdx_cons, List.flatMap_cons]
    cases hf : f item with
    | none =>
      rw [List.filterMap_cons_none (by rw [hf]; rfl), hrest, List.append_assoc]
      rfl
    | some new =>
      rw [List.filterMap_cons_some (b := (front.length, new)) (by rw [hf]; rfl)]
      unfold insertBehind at hrest ⊢
      rw [List.reverse_cons, List.foldl_concat, hrest]
      have hlen : front.length + 1 = (front ++ [item]).length := by simp
      show List.insertIdx _ (front.length + 1) new = _
      rw [hlen, insertIdx_length_append, List.append_assoc]
      rfl

/-- **Insertion in one pass.** What is computed for an element ends up right behind it. -/
theorem insertBehind_zipIdx (f : α → Option α) (items : List α) :
    insertBehind items (items.zipIdx.filterMap fun entry =>
      (f entry.1).map fun new => (entry.2, new)) =
        items.flatMap fun item => item :: (f item).toList :=
  insertBehind_insertionsFrom f [] items

end Insertion

/-! ### Keys with one element of either kind -/

section Matching

variable {α κ : Type*} [DecidableEq κ] {f g : α → Option κ} {item : α} {items : List α} {key : κ}

/-- The number of elements that have a key. -/
def keyCount (f : α → Option κ) (items : List α) (key : κ) : Nat :=
  items.countP fun item => f item = some key

/-- Each key has one element of either kind, or none. -/
def Matched (f g : α → Option κ) (items : List α) : Prop :=
  ∀ key, keyCount f items key ≤ 1 ∧ keyCount g items key = keyCount f items key

theorem keyCount_pos_iff : 0 < keyCount f items key ↔ ∃ item ∈ items, f item = some key := by
  unfold keyCount
  simp

theorem keyCount_cons_of_eq (h : f item = some key) :
    keyCount f (item :: items) key = keyCount f items key + 1 :=
  List.countP_cons_of_pos (decide_eq_true h)

theorem keyCount_cons_of_ne (h : f item ≠ some key) :
    keyCount f (item :: items) key = keyCount f items key :=
  List.countP_cons_of_neg (by simpa using h)

/-- Elements that are kept count as before. -/
theorem keyCount_filter {q : α → Bool} (h : ∀ item, f item = some key → q item = true) :
    keyCount f (items.filter q) key = keyCount f items key := by
  unfold keyCount
  rw [List.countP_filter]
  refine List.countP_congr fun item _ => ?_
  rw [Bool.and_eq_true]
  exact and_iff_left_of_imp fun heq => h item (of_decide_eq_true heq)

theorem Matched.symm (h : Matched f g items) : Matched g f items := fun key =>
  ⟨by rw [(h key).2]; exact (h key).1, (h key).2.symm⟩

theorem Matched.perm {other : List α} (h : Matched f g items) (hperm : items.Perm other) :
    Matched f g other := by
  intro key
  unfold keyCount
  rw [← hperm.countP_eq, ← hperm.countP_eq]
  exact h key

/-- The first element has no rival for its key, and one counterpart behind it. -/
theorem Matched.keyCount_tail (h : Matched f g (item :: items))
    (hother : ∀ item key, f item = some key → g item = none) (hkey : f item = some key) :
    keyCount g items key = 1 := by
  obtain ⟨hle, heq⟩ := h key
  rw [keyCount_cons_of_eq hkey] at hle heq
  rw [keyCount_cons_of_ne (by rw [hother item key hkey]; simp)] at heq
  omega

/-- **The first element goes with its counterpart.** -/
theorem Matched.without (h : Matched f g (item :: items))
    (hother : ∀ item key, f item = some key → g item = none) (hkey : f item = some key) :
    Matched f g (items.filter fun other => !decide (g other = some key)) := by
  intro key'
  have hf : keyCount f (items.filter fun other => !decide (g other = some key)) key' =
      keyCount f items key' := keyCount_filter fun other heq => by
    rw [hother other key' heq]
    rfl
  obtain ⟨hle, heq⟩ := h key'
  rw [hf]
  by_cases hsame : key' = key
  · subst hsame
    have hzero : keyCount g (items.filter fun other => !decide (g other = some key')) key' = 0 := by
      unfold keyCount
      refine List.countP_eq_zero.mpr fun other hmem => ?_
      simpa using (List.mem_filter.mp hmem).2
    rw [keyCount_cons_of_eq hkey] at hle
    omega
  · have hg : keyCount g (items.filter fun other => !decide (g other = some key)) key' =
        keyCount g items key' := keyCount_filter fun other heq => by
      rw [heq]
      simpa using hsame
    have hne : f item ≠ some key' := by
      rw [hkey]
      simpa using Ne.symm hsame
    rw [keyCount_cons_of_ne hne] at hle heq
    rw [keyCount_cons_of_ne (by rw [hother item key hkey]; simp)] at heq
    rw [hg]
    exact ⟨hle, heq⟩

/-- One match is erased like all of them. -/
theorem eraseP_eq_filter {p : α → Bool} (h : items.countP p ≤ 1) :
    items.eraseP p = items.filter fun item => !p item := by
  induction items with
  | nil => rfl
  | cons item items ih =>
    by_cases hp : p item = true
    · rw [List.countP_cons_of_pos hp] at h
      have hzero : items.countP p = 0 := by omega
      rw [List.eraseP_cons_of_pos hp, List.filter_cons_of_neg (by simpa using hp)]
      refine (List.filter_eq_self.mpr fun other hmem => ?_).symm
      simpa using List.countP_eq_zero.mp hzero other hmem
    · rw [List.countP_cons_of_neg hp] at h
      rw [List.eraseP_cons_of_neg hp, List.filter_cons_of_pos (by simpa using hp), ih h]

end Matching

/-! ### Calls and outputs -/

/-- What the elements of a log await and answer. -/
structure Pairing (α κ : Type*) where
  awaits : α → Option κ
  answers : α → Option κ
  /-- Outputs that may stand without a call. -/
  exempt : α → Bool
  /-- The output that is supplied for a key. -/
  supply : κ → α
  answers_supply : ∀ key, answers (supply key) = some key
  /-- A call is not an output. -/
  answers_of_awaits : ∀ item key, awaits item = some key → answers item = none

namespace Pairing

variable {α κ : Type*} [DecidableEq κ] (P : Pairing α κ)

def answered (items : List α) (key : κ) : Bool := items.any fun item => P.answers item = some key

def awaited (items : List α) (key : κ) : Bool := items.any fun item => P.awaits item = some key

/-- The output that a call lacks. -/
def missing (items : List α) (item : α) : Option α :=
  match P.awaits item with
  | some key => if P.answered items key then none else some (P.supply key)
  | none => none

/-- An output without a call. -/
def orphan (items : List α) (item : α) : Bool :=
  match P.answers item with
  | some key => !P.exempt item && !P.awaited items key
  | none => false

def complete (items : List α) : List α :=
  items.flatMap fun item => item :: (P.missing items item).toList

def prune (items : List α) : List α := items.filter fun item => !P.orphan items item

def normalize (items : List α) : List α := P.prune (P.complete items)

/-- Every call has an output, and every output that is not exempt has a call. -/
structure Paired (items : List α) : Prop where
  answered : ∀ call ∈ items, ∀ key, P.awaits call = some key →
    ∃ output ∈ items, P.answers output = some key
  awaited : ∀ output ∈ items, P.exempt output = false → ∀ key, P.answers output = some key →
    ∃ call ∈ items, P.awaits call = some key

variable {P} {items : List α} {item call output new : α} {key : κ}

theorem answered_iff :
    P.answered items key = true ↔ ∃ output ∈ items, P.answers output = some key := by
  simp [answered]

theorem awaited_iff : P.awaited items key = true ↔ ∃ call ∈ items, P.awaits call = some key := by
  simp [awaited]

theorem missing_eq_some_iff :
    P.missing items item = some new ↔
      ∃ key, P.awaits item = some key ∧ P.answered items key = false ∧ P.supply key = new := by
  unfold missing
  cases hawaits : P.awaits item with
  | none => simp
  | some key => cases hans : P.answered items key <;> simp [hans]

theorem orphan_eq_true_iff :
    P.orphan items item = true ↔
      ∃ key, P.answers item = some key ∧ P.exempt item = false ∧ P.awaited items key = false := by
  unfold orphan
  cases hanswers : P.answers item with
  | none => simp
  | some key => cases hex : P.exempt item <;> simp

omit [DecidableEq κ] in
theorem awaits_eq_none_of_answers (h : P.answers item = some key) : P.awaits item = none := by
  cases hawaits : P.awaits item with
  | none => rfl
  | some other =>
    rw [P.answers_of_awaits item other hawaits] at h
    cases h

theorem missing_of_answers (h : P.answers item = some key) : P.missing items item = none := by
  unfold missing
  rw [awaits_eq_none_of_answers h]

theorem orphan_of_awaits (h : P.awaits item = some key) : P.orphan items item = false := by
  unfold orphan
  rw [P.answers_of_awaits item key h]

theorem orphan_of_awaited (hanswers : P.answers item = some key)
    (hawaited : P.awaited items key = true) : P.orphan items item = false := by
  rw [← Bool.not_eq_true]
  intro horphan
  obtain ⟨key', hkey, _, hnone⟩ := orphan_eq_true_iff.mp horphan
  obtain rfl : key = key' := Option.some.inj (hanswers.symm.trans hkey)
  rw [hawaited] at hnone
  cases hnone

/-! ### What the two steps do -/

theorem mem_complete :
    item ∈ P.complete items ↔
      item ∈ items ∨ ∃ call ∈ items, P.missing items call = some item := by
  unfold complete
  simp only [List.mem_flatMap, List.mem_cons, Option.mem_toList]
  constructor
  · rintro ⟨call, hcall, rfl | hmissing⟩
    · exact .inl hcall
    · exact .inr ⟨call, hcall, hmissing⟩
  · rintro (hitem | ⟨call, hcall, hmissing⟩)
    · exact ⟨item, hitem, .inl rfl⟩
    · exact ⟨call, hcall, .inr hmissing⟩

theorem mem_prune : item ∈ P.prune items ↔ item ∈ items ∧ P.orphan items item = false := by
  simp [prune]

/-- Supplied outputs are not calls. -/
theorem awaited_complete : P.awaited (P.complete items) key = P.awaited items key := by
  rw [Bool.eq_iff_iff, awaited_iff, awaited_iff]
  constructor
  · rintro ⟨call, hcall, hawaits⟩
    rcases mem_complete.mp hcall with hmem | ⟨other, _, hmissing⟩
    · exact ⟨call, hmem, hawaits⟩
    · obtain ⟨key', _, _, rfl⟩ := missing_eq_some_iff.mp hmissing
      rw [awaits_eq_none_of_answers (P.answers_supply key')] at hawaits
      cases hawaits
  · rintro ⟨call, hcall, hawaits⟩
    exact ⟨call, mem_complete.mpr (.inl hcall), hawaits⟩

theorem orphan_complete : P.orphan (P.complete items) item = P.orphan items item := by
  unfold orphan
  simp only [awaited_complete]

/-- Calls are not dropped. -/
theorem awaited_prune : P.awaited (P.prune items) key = P.awaited items key := by
  rw [Bool.eq_iff_iff, awaited_iff, awaited_iff]
  constructor
  · rintro ⟨call, hcall, hawaits⟩
    exact ⟨call, (mem_prune.mp hcall).1, hawaits⟩
  · rintro ⟨call, hcall, hawaits⟩
    exact ⟨call, mem_prune.mpr ⟨hcall, orphan_of_awaits hawaits⟩, hawaits⟩

/-- A supplied output has a call. -/
theorem orphan_of_missing (hcall : call ∈ items) (hmissing : P.missing items call = some new) :
    P.orphan items new = false := by
  obtain ⟨key, hawaits, _, rfl⟩ := missing_eq_some_iff.mp hmissing
  exact orphan_of_awaited (P.answers_supply key) (awaited_iff.mpr ⟨call, hcall, hawaits⟩)

theorem exists_answer_complete (hcall : call ∈ items) (hawaits : P.awaits call = some key) :
    ∃ output ∈ P.complete items, P.answers output = some key := by
  cases hans : P.answered items key with
  | true =>
    obtain ⟨output, hmem, hanswers⟩ := answered_iff.mp hans
    exact ⟨output, mem_complete.mpr (.inl hmem), hanswers⟩
  | false =>
    have hmissing : P.missing items call = some (P.supply key) :=
      missing_eq_some_iff.mpr ⟨key, hawaits, hans, rfl⟩
    exact ⟨_, mem_complete.mpr (.inr ⟨call, hcall, hmissing⟩), P.answers_supply key⟩

/-! ### Normalisation -/

/-- **Normalisation pairs.** -/
theorem paired_normalize (items : List α) : P.Paired (P.normalize items) := by
  constructor
  · intro call hcall key hawaits
    have hcomplete := (mem_prune.mp hcall).1
    have hawaited : P.awaited (P.complete items) key = true :=
      awaited_iff.mpr ⟨call, hcomplete, hawaits⟩
    have hbefore : P.awaited items key = true := by
      rw [← hawaited, awaited_complete]
    obtain ⟨source, hsource, hkey⟩ := awaited_iff.mp hbefore
    obtain ⟨output, hmem, hanswers⟩ := exists_answer_complete hsource hkey
    exact ⟨output, mem_prune.mpr ⟨hmem, orphan_of_awaited hanswers hawaited⟩, hanswers⟩
  · intro output houtput hexempt key hanswers
    obtain ⟨_, horphan⟩ := mem_prune.mp houtput
    apply awaited_iff.mp
    show P.awaited (P.prune (P.complete items)) key = true
    rw [awaited_prune]
    unfold orphan at horphan
    rw [hanswers, hexempt] at horphan
    simpa using horphan

theorem Paired.missing_eq_none (h : P.Paired items) (hitem : item ∈ items) :
    P.missing items item = none := by
  cases hmissing : P.missing items item with
  | none => rfl
  | some new =>
    obtain ⟨key, hawaits, hans, _⟩ := missing_eq_some_iff.mp hmissing
    rw [answered_iff.mpr (h.answered item hitem key hawaits)] at hans
    cases hans

theorem Paired.orphan_eq_false (h : P.Paired items) (hitem : item ∈ items) :
    P.orphan items item = false := by
  rw [← Bool.not_eq_true]
  intro horphan
  obtain ⟨key, hanswers, hexempt, hawaited⟩ := orphan_eq_true_iff.mp horphan
  rw [awaited_iff.mpr (h.awaited item hitem hexempt key hanswers)] at hawaited
  cases hawaited

/-- **Paired logs are left alone.** -/
theorem Paired.normalize_eq (h : P.Paired items) : P.normalize items = items := by
  have hcomplete : P.complete items = items := by
    unfold complete
    calc items.flatMap (fun item => item :: (P.missing items item).toList)
        = items.flatMap (fun item => [item]) :=
          List.flatMap_congr fun item hitem => by rw [h.missing_eq_none hitem]; rfl
      _ = items := by simp
  unfold normalize
  rw [hcomplete, prune, List.filter_eq_self]
  intro item hitem
  rw [h.orphan_eq_false hitem]
  rfl

/-- **The order is kept.** Without its orphans the log is as it was, with the supplied outputs
    right behind their calls. -/
theorem normalize_eq (items : List α) :
    P.normalize items = (items.filter fun item => !P.orphan items item).flatMap fun item =>
      item :: (P.missing items item).toList := by
  unfold normalize prune
  simp only [orphan_complete]
  unfold complete
  rw [List.filter_flatMap, flatMap_filter_eq]
  refine List.flatMap_congr fun item hitem => ?_
  cases hmissing : P.missing items item with
  | none => cases horphan : P.orphan items item <;> simp [horphan]
  | some new =>
    have hnew := orphan_of_missing hitem hmissing
    obtain ⟨key, hawaits, _⟩ := missing_eq_some_iff.mp hmissing
    simp [orphan_of_awaits hawaits, hnew]

omit [DecidableEq κ] in
/-- A map that keeps what is awaited and answered keeps logs paired. -/
theorem Paired.map {f : α → α} (h : P.Paired items)
    (hawaits : ∀ item, P.awaits (f item) = P.awaits item)
    (hanswers : ∀ item, P.answers (f item) = P.answers item)
    (hexempt : ∀ item, P.exempt (f item) = P.exempt item) : P.Paired (items.map f) := by
  constructor
  · intro call hcall key hkey
    obtain ⟨source, hsource, rfl⟩ := List.mem_map.mp hcall
    obtain ⟨output, hmem, hout⟩ := h.answered source hsource key (hawaits source ▸ hkey)
    exact ⟨f output, List.mem_map_of_mem hmem, (hanswers output).trans hout⟩
  · intro output houtput hex key hkey
    obtain ⟨source, hsource, rfl⟩ := List.mem_map.mp houtput
    obtain ⟨call, hmem, hcall⟩ :=
      h.awaited source hsource (hexempt source ▸ hex) key (hanswers source ▸ hkey)
    exact ⟨f call, List.mem_map_of_mem hmem, (hawaits call).trans hcall⟩

/-! ### One call and one output for a key -/

variable (P) in
/-- Each key that is awaited is awaited once and answered once, and no other is answered. -/
def Once (items : List α) : Prop := Matched P.awaits P.answers items

variable (P) in
/-- The call of an output and the output of a call. -/
def partner (item other : α) : Bool :=
  match P.awaits item with
  | some key => P.answers other = some key
  | none => match P.answers item with
    | some key => P.awaits other = some key
    | none => false

theorem partner_of_awaits (h : P.awaits item = some key) :
    P.partner item = fun other => decide (P.answers other = some key) := by
  unfold partner
  rw [h]

theorem partner_of_answers (h : P.answers item = some key) :
    P.partner item = fun other => decide (P.awaits other = some key) := by
  unfold partner
  rw [awaits_eq_none_of_answers h, h]

theorem partner_of_none (hawaits : P.awaits item = none) (hanswers : P.answers item = none) :
    P.partner item = fun _ => false := by
  unfold partner
  rw [hawaits, hanswers]

omit [DecidableEq κ] in
/-- An output is not a call. -/
theorem awaits_ne_of_answers : ∀ item key, P.answers item = some key → P.awaits item = none :=
  fun _ _ h => awaits_eq_none_of_answers h

/-- **A call or an output has one partner**, other elements have none. -/
theorem Once.countP_partner (h : P.Once (item :: items)) :
    items.countP (P.partner item) =
      if (P.awaits item).isSome || (P.answers item).isSome then 1 else 0 := by
  cases hawaits : P.awaits item with
  | some key =>
    rw [partner_of_awaits hawaits]
    exact Matched.keyCount_tail h P.answers_of_awaits hawaits
  | none =>
    cases hanswers : P.answers item with
    | some key =>
      rw [partner_of_answers hanswers]
      exact Matched.keyCount_tail h.symm awaits_ne_of_answers hanswers
    | none =>
      rw [partner_of_none hawaits hanswers]
      simp

/-- **An element is removed together with its partner.** -/
theorem Once.without_partner (h : P.Once (item :: items)) :
    P.Once (items.filter fun other => !P.partner item other) := by
  cases hawaits : P.awaits item with
  | some key =>
    rw [partner_of_awaits hawaits]
    exact Matched.without h P.answers_of_awaits hawaits
  | none =>
    cases hanswers : P.answers item with
    | some key =>
      rw [partner_of_answers hanswers]
      exact (Matched.without h.symm awaits_ne_of_answers hanswers).symm
    | none =>
      rw [partner_of_none hawaits hanswers]
      show P.Once (items.filter fun _ => true)
      rw [List.filter_true]
      intro key
      have hcount := h key
      rwa [keyCount_cons_of_ne (by rw [hawaits]; simp), keyCount_cons_of_ne (by rw [hanswers]; simp)]
        at hcount

/-- A log with one call and one output for each key is paired. -/
theorem Once.paired (h : P.Once items) : P.Paired items where
  answered call hcall key hawaits := by
    have hpos : 0 < keyCount P.answers items key := by
      rw [(h key).2]
      exact keyCount_pos_iff.mpr ⟨call, hcall, hawaits⟩
    exact keyCount_pos_iff.mp hpos
  awaited output houtput _ key hanswers := by
    have hpos : 0 < keyCount P.awaits items key := by
      rw [← (h key).2]
      exact keyCount_pos_iff.mpr ⟨output, houtput, hanswers⟩
    exact keyCount_pos_iff.mp hpos

end Pairing

end CodexMonitor
