import CodexMonitor.History.MiddleCut

namespace CodexMonitor.History

open Text

/-!
# History — the budget of a tool output

`utils/output-truncation/src/lib.rs`: the texts of a tool output are kept while the budget lasts,
the first one that exceeds it is cut, and the others are left out and counted; images are kept.

* `textCost`, `textBudget` — costs and budget, in bytes or in approximate tokens.
* `truncateText_ne_nil` — a text that is cut leaves its marker.
* `Progress`, `truncateItemStep_progress` — what the loop has done with the items so far.
* `truncateItems_exact` — what becomes of all items.
-/

variable {policy : TruncationPolicy} {items front back : List FunctionCallOutputContentItem}
  {text : Text} {st : TruncateItemsState}

/-! ### Costs -/

/-- What a text costs: its bytes, or its approximate tokens. -/
def textCost (policy : TruncationPolicy) (text : Text) : Nat :=
  match policy with
  | .bytes _ => text.byteLen
  | .tokens _ => approxTokenCount text

def textBudget (policy : TruncationPolicy) : Nat :=
  match policy with
  | .bytes _ => policy.byteBudget
  | .tokens _ => policy.tokenBudget

/-- The policy for what is left of the budget. -/
def TruncationPolicy.withBudget (policy : TruncationPolicy) (remaining : Nat) : TruncationPolicy :=
  match policy with
  | .bytes _ => .bytes remaining
  | .tokens _ => .tokens remaining

def FunctionCallOutputContentItem.isImage : FunctionCallOutputContentItem → Bool
  | .inputImage _ _ => true
  | .inputText _ => false

def FunctionCallOutputContentItem.cost (policy : TruncationPolicy) :
    FunctionCallOutputContentItem → Nat
  | .inputText text => textCost policy text
  | .inputImage _ _ => 0

/-- What the texts among the items cost together. -/
def totalCost (policy : TruncationPolicy) (items : List FunctionCallOutputContentItem) : Nat :=
  (items.map (·.cost policy)).sum

def imagesOf (items : List FunctionCallOutputContentItem) : List FunctionCallOutputContentItem :=
  items.filter (·.isImage)

/-- The number of texts. -/
def textsIn (items : List FunctionCallOutputContentItem) : Nat :=
  items.countP fun item => !item.isImage

/-- The trailing marker, unless every text appears. -/
def omittedMarker (omitted : Nat) : List FunctionCallOutputContentItem :=
  if 0 < omitted then
    [.inputText ("[omitted ".toList ++ digits omitted ++ " text items ...]".toList)]
  else []

/-! ### A text over budget -/

theorem truncateWithByteEstimate_ne_nil {s : Text} {maxBytes : Nat} {useTokens : Bool}
    (hlong : maxBytes < byteLen s) : truncateWithByteEstimate s maxBytes useTokens ≠ [] := by
  have hne : s ≠ [] := by
    rintro rfl
    exact absurd hlong (Nat.not_lt_zero _)
  have hmarker : ∀ n, formatTruncationMarker useTokens n ≠ [] := by
    intro n
    unfold formatTruncationMarker
    cases useTokens <;> exact List.cons_ne_nil _ _
  unfold truncateWithByteEstimate
  rw [if_neg (by simpa using hne)]
  split
  · exact hmarker _
  · rw [if_neg (by omega)]
    simp [hmarker]

/-- **A text that is cut leaves its marker.** -/
theorem truncateText_ne_nil {remaining : Nat} (hlong : remaining < textCost policy text) :
    truncateText text (policy.withBudget remaining) ≠ [] := by
  cases policy with
  | bytes n => exact truncateWithByteEstimate_ne_nil hlong
  | tokens n =>
    have hbytes : approxBytesForTokens remaining < byteLen text := by
      unfold approxBytesForTokens saturatingMul approxBytesPerToken
      simp only [textCost, approxTokenCount, approxBytesPerToken] at hlong
      omega
    have hcut : truncateWithByteEstimate text (approxBytesForTokens remaining) true ≠ [] :=
      truncateWithByteEstimate_ne_nil hbytes
    have hne : text ≠ [] := by
      rintro rfl
      exact absurd hbytes (Nat.not_lt_zero _)
    show (truncateMiddleWithTokenBudget text remaining).1 ≠ []
    unfold truncateMiddleWithTokenBudget
    rw [if_neg (by simpa using hne), if_neg (by omega)]
    dsimp only
    split <;> exact hcut

/-! ### The loop -/

/-- **What the loop has done** with the items behind it: it keeps them all, the budget was spent
    exactly before some text, or some text was cut to what was left. -/
inductive Progress (policy : TruncationPolicy) (st : TruncateItemsState) :
    List FunctionCallOutputContentItem → Prop
  | keeping {items : List FunctionCallOutputContentItem}
      (hcost : totalCost policy items ≤ textBudget policy) (hout : st.out = items)
      (hleft : st.remainingBudget = textBudget policy - totalCost policy items)
      (homitted : st.omittedTextItems = 0) : Progress policy st items
  | spent {front back : List FunctionCallOutputContentItem} {text : Text}
      (hcost : totalCost policy front = textBudget policy) (hout : st.out = front ++ imagesOf back)
      (hleft : st.remainingBudget = 0) (homitted : st.omittedTextItems = 1 + textsIn back) :
      Progress policy st (front ++ .inputText text :: back)
  | cut {front back : List FunctionCallOutputContentItem} {text : Text}
      (hcost : totalCost policy front < textBudget policy)
      (hlong : textBudget policy - totalCost policy front < textCost policy text)
      (hout : st.out = front ++ .inputText (truncateText text
        (policy.withBudget (textBudget policy - totalCost policy front))) :: imagesOf back)
      (hleft : st.remainingBudget = 0) (homitted : st.omittedTextItems = textsIn back) :
      Progress policy st (front ++ .inputText text :: back)

theorem totalCost_concat (item : FunctionCallOutputContentItem) :
    totalCost policy (items ++ [item]) = totalCost policy items + item.cost policy := by
  simp [totalCost]

theorem imagesOf_concat_image (imageUrl : Text) (detail : Option ImageDetail) :
    imagesOf (back ++ [.inputImage imageUrl detail]) =
      imagesOf back ++ [.inputImage imageUrl detail] := by
  unfold imagesOf
  rw [List.filter_append]
  rfl

theorem imagesOf_concat_text (text : Text) : imagesOf (back ++ [.inputText text]) = imagesOf back := by
  unfold imagesOf
  rw [List.filter_append]
  exact List.append_nil _

theorem textsIn_concat_image (imageUrl : Text) (detail : Option ImageDetail) :
    textsIn (back ++ [.inputImage imageUrl detail]) = textsIn back := by
  unfold textsIn
  rw [List.countP_append]
  rfl

theorem textsIn_concat_text (text : Text) : textsIn (back ++ [.inputText text]) = textsIn back + 1 := by
  unfold textsIn
  rw [List.countP_append]
  rfl

/-- The steps of the loop, with costs and budgets under their names. -/
theorem truncateItemStep_text : truncateItemStep policy st (.inputText text) =
    if st.remainingBudget = 0 then { st with omittedTextItems := st.omittedTextItems + 1 }
    else if textCost policy text ≤ st.remainingBudget then
      { st with
        out := st.out ++ [.inputText text]
        remainingBudget := st.remainingBudget - textCost policy text }
    else
      { st with
        out := st.out ++ [.inputText (truncateText text (policy.withBudget st.remainingBudget))]
        remainingBudget := 0 } := by
  have hstep : truncateItemStep policy st (.inputText text) =
      if st.remainingBudget = 0 then { st with omittedTextItems := st.omittedTextItems + 1 }
      else if textCost policy text ≤ st.remainingBudget then
        { st with
          out := st.out ++ [.inputText text]
          remainingBudget := st.remainingBudget - textCost policy text }
      else if (truncateText text (policy.withBudget st.remainingBudget)).isEmpty then
        { st with omittedTextItems := st.omittedTextItems + 1, remainingBudget := 0 }
      else
        { st with
          out := st.out ++ [.inputText (truncateText text (policy.withBudget st.remainingBudget))]
          remainingBudget := 0 } := by
    cases policy <;> rfl
  rw [hstep]
  refine if_congr Iff.rfl rfl ?_
  by_cases hfits : textCost policy text ≤ st.remainingBudget
  · rw [if_pos hfits, if_pos hfits]
  · -- the snippet is never empty
    have hne : truncateText text (policy.withBudget st.remainingBudget) ≠ [] :=
      truncateText_ne_nil (Nat.lt_of_not_le hfits)
    rw [if_neg hfits, if_neg hfits, if_neg (by simpa using hne)]

/-- **One item.** -/
theorem truncateItemStep_progress (h : Progress policy st items)
    (item : FunctionCallOutputContentItem) :
    Progress policy (truncateItemStep policy st item) (items ++ [item]) := by
  cases h with
  | keeping hcost hout hleft homitted =>
    cases item with
    | inputImage imageUrl detail =>
      refine .keeping ?_ ?_ ?_ homitted
      · rwa [totalCost_concat]
      · show st.out ++ _ = _
        rw [hout]
      · rw [totalCost_concat]
        exact hleft
    | inputText text =>
      rw [truncateItemStep_text]
      by_cases hzero : st.remainingBudget = 0
      · rw [if_pos hzero]
        refine .spent (by omega) ?_ hzero ?_
        · rw [hout]
          exact (List.append_nil items).symm
        · show st.omittedTextItems + 1 = 1 + 0
          omega
      · rw [if_neg hzero]
        by_cases hfits : textCost policy text ≤ st.remainingBudget
        · rw [if_pos hfits]
          have htotal : totalCost policy (items ++ [.inputText text]) =
              totalCost policy items + textCost policy text := totalCost_concat _
          refine .keeping (by omega) ?_ ?_ homitted
          · show st.out ++ _ = _
            rw [hout]
          · show st.remainingBudget - textCost policy text = _
            omega
        · rw [if_neg hfits]
          refine .cut (by omega) (by omega) ?_ rfl homitted
          show st.out ++ _ = _
          rw [hout, hleft]
          rfl
  | @spent front back text hcost hout hleft homitted =>
    rw [List.append_assoc, List.cons_append]
    cases item with
    | inputImage imageUrl detail =>
      refine .spent hcost ?_ hleft ?_
      · show st.out ++ _ = _
        rw [hout, imagesOf_concat_image, List.append_assoc]
      · rw [textsIn_concat_image]
        exact homitted
    | inputText more =>
      rw [truncateItemStep_text, if_pos hleft]
      refine .spent hcost ?_ hleft ?_
      · rw [imagesOf_concat_text]
        exact hout
      · rw [textsIn_concat_text]
        show st.omittedTextItems + 1 = _
        omega
  | @cut front back text hcost hlong hout hleft homitted =>
    rw [List.append_assoc, List.cons_append]
    cases item with
    | inputImage imageUrl detail =>
      refine .cut hcost hlong ?_ hleft ?_
      · show st.out ++ _ = _
        rw [hout, imagesOf_concat_image, List.append_assoc, List.cons_append]
      · rw [textsIn_concat_image]
        exact homitted
    | inputText more =>
      rw [truncateItemStep_text, if_pos hleft]
      refine .cut hcost hlong ?_ hleft ?_
      · rw [imagesOf_concat_text]
        exact hout
      · rw [textsIn_concat_text]
        show st.omittedTextItems + 1 = _
        omega

theorem foldl_progress (items : List FunctionCallOutputContentItem) (policy : TruncationPolicy) :
    Progress policy (items.foldl (truncateItemStep policy) ⟨[], textBudget policy, 0⟩) items := by
  induction items using List.reverseRecOn with
  | nil => exact .keeping (Nat.zero_le _) rfl rfl rfl
  | append_singleton items item ih =>
    rw [List.foldl_concat]
    exact truncateItemStep_progress ih item

/-! ### The truncated output -/

theorem truncateItems_eq (items : List FunctionCallOutputContentItem) (policy : TruncationPolicy) :
    truncateFunctionOutputItemsWithPolicy items policy =
      (items.foldl (truncateItemStep policy) ⟨[], textBudget policy, 0⟩).out ++
        omittedMarker (items.foldl (truncateItemStep policy)
          ⟨[], textBudget policy, 0⟩).omittedTextItems := by
  have hbudget : truncateFunctionOutputItemsWithPolicy items policy =
      let st := items.foldl (truncateItemStep policy) ⟨[], textBudget policy, 0⟩
      if 0 < st.omittedTextItems then
        st.out ++ [.inputText ("[omitted ".toList ++ digits st.omittedTextItems
          ++ " text items ...]".toList)]
      else st.out := by
    cases policy <;> rfl
  rw [hbudget]
  unfold omittedMarker
  dsimp only
  split
  · rfl
  · rw [List.append_nil]

/-- **Only text beyond the budget is lost.** The items in front are kept as they are, and the costs
    of their texts are within the budget.  They are all items, or a text stands behind them: it is
    left out if the budget is spent, and cut to what is left of the budget if it costs more.  Of the
    items behind that text the images are kept, in their order, and the trailing marker counts the
    texts that do not appear. -/
theorem truncateItems_exact (items : List FunctionCallOutputContentItem)
    (policy : TruncationPolicy) :
    ∃ front, totalCost policy front ≤ textBudget policy ∧
      (items = front ∧ truncateFunctionOutputItemsWithPolicy items policy = front ∨
        ∃ text back, items = front ++ .inputText text :: back ∧
          (totalCost policy front = textBudget policy ∧
              truncateFunctionOutputItemsWithPolicy items policy =
                front ++ imagesOf back ++ omittedMarker (1 + textsIn back) ∨
            totalCost policy front < textBudget policy ∧
              textBudget policy - totalCost policy front < textCost policy text ∧
              truncateFunctionOutputItemsWithPolicy items policy =
                front ++ .inputText (truncateText text
                  (policy.withBudget (textBudget policy - totalCost policy front))) ::
                    imagesOf back ++ omittedMarker (textsIn back))) := by
  rw [truncateItems_eq]
  cases foldl_progress items policy with
  | keeping hcost hout _ homitted =>
    rw [hout, homitted]
    exact ⟨items, hcost, .inl ⟨rfl, List.append_nil _⟩⟩
  | @spent front back text hcost hout _ homitted =>
    rw [hout, homitted]
    exact ⟨front, hcost.le, .inr ⟨text, back, rfl, .inl ⟨hcost, rfl⟩⟩⟩
  | @cut front back text hcost hlong hout _ homitted =>
    rw [hout, homitted]
    exact ⟨front, hcost.le, .inr ⟨text, back, rfl, .inr ⟨hcost, hlong, rfl⟩⟩⟩

end CodexMonitor.History
