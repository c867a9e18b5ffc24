import CodexMonitor.FileLinks.Fragments
import CodexMonitor.FileLinks.Pathnames

namespace CodexMonitor.FileLinks

open Text

/-!
# File links — reading the URLs that are written

* `FileUrls` — what is assumed of `new URL`.
* `parse_local` — the location that a URL without a host is read as.
* `parse_authority` — no URL with a host is read as a path that begins with a slash and a backslash.
-/

variable {numbers : Numbers} {line column : Option Nat} {hash : Text}

/-! ### The parts of a URL -/

theorem UrlHash.takeWhile (h : UrlHash hash) {t : Text} (ht : '#' ∉ t) :
    (t ++ hash).takeWhile (fun c => c ≠ '#') = t ∧
      (t ++ hash).dropWhile (fun c => c ≠ '#') = hash := by
  have hkept : ∀ c ∈ t, (decide (c ≠ '#')) = true := by
    intro c hc
    exact decide_eq_true fun heq => ht (heq ▸ hc)
  rw [List.takeWhile_append_of_pos hkept, List.dropWhile_append_of_pos hkept]
  rcases h with rfl | ⟨rest, rfl, -, -⟩
  · exact ⟨List.append_nil t, rfl⟩
  · exact ⟨by simp, by simp⟩

/-- The signs of the URLs that are written. -/
def isUrlSign (c : Char) : Bool := Percent.isUnreserved c || c ∈ ['%', ':', '/', '#', '+']

theorem ascii_of_isUnreserved {c : Char} (h : Percent.isUnreserved c = true) : c.toNat < 128 := by
  unfold Percent.isUnreserved at h
  rw [Bool.or_eq_true] at h
  rcases h with h | h
  · exact CaseMapping.ascii_of_isAlphanum h
  · simp only [List.mem_cons, List.not_mem_nil, or_false, decide_eq_true_eq] at h
    rcases h with rfl | rfl | rfl | rfl | rfl | rfl | rfl | rfl | rfl <;> decide

theorem not_blank_of_isUrlSign {c : Char} (h : isUrlSign c = true) : isJsWhitespace c = false := by
  have hascii : c.toNat < 128 := by
    unfold isUrlSign at h
    rw [Bool.or_eq_true] at h
    rcases h with h | h
    · exact ascii_of_isUnreserved h
    · simp only [List.mem_cons, List.not_mem_nil, or_false, decide_eq_true_eq] at h
      rcases h with rfl | rfl | rfl | rfl | rfl <;> decide
  have hall : ∀ n < 128, isUrlSign (Char.ofNat n) = true → isJsWhitespace (Char.ofNat n) = false := by
    decide
  have hchar := hall c.toNat hascii
  rw [Char.ofNat_toNat] at hchar
  exact hchar h

theorem UrlHash.signs (h : UrlHash hash) : ∀ c ∈ hash, isUrlSign c = true := by
  rcases h with rfl | ⟨rest, rfl, -, hrest⟩
  · simp
  · intro c hc
    unfold isUrlSign
    rcases List.mem_cons.mp hc with rfl | hc
    · decide
    · rcases hrest c hc with h | rfl
      · rw [h]
        rfl
      · decide

/-- Neither an escape nor a separator stands in a fragment. -/
theorem UrlHash.plain (h : UrlHash hash) : '%' ∉ hash ∧ '/' ∉ hash ∧ '\\' ∉ hash := by
  have hnot : ∀ d, d ≠ '#' → d ≠ '+' → Percent.isUnreserved d = false → d ∉ hash := by
    intro d hsharp hplus hreserved hmem
    rcases h with rfl | ⟨rest, rfl, -, hrest⟩
    · cases hmem
    · rcases List.mem_cons.mp hmem with rfl | hmem
      · exact hsharp rfl
      · rcases hrest d hmem with hd | rfl
        · rw [hreserved] at hd
          cases hd
        · exact hplus rfl
  exact ⟨hnot _ (by decide) (by decide) (by decide), hnot _ (by decide) (by decide) (by decide),
    hnot _ (by decide) (by decide) (by decide)⟩

theorem isUrlSign_of_path {c : Char} (h : isPathSign c = true ∨ c = '/') : isUrlSign c = true := by
  unfold isUrlSign
  rcases h with h | rfl
  · unfold isPathSign at h
    rw [Bool.or_eq_true, Bool.or_eq_true] at h
    rcases h with (h | h) | h
    · rw [h]
      rfl
    · obtain rfl := of_decide_eq_true h
      decide
    · obtain rfl := of_decide_eq_true h
      decide
  · decide

/-! ### URLs without a host -/

/-- **What is assumed of `new URL`.**  A URL that needs no normalization is taken apart as it is
    written; and a pathname behind a host has no backslash behind its first slash when there is none
    behind a slash of the URL.  Either kind may be rejected. -/
structure FileUrls (urls : UrlParser) : Prop where
  regular : ∀ pathname hash, UrlPath pathname → UrlHash hash →
    urls.parse ("file://".toList ++ pathname ++ hash) = none ∨
      urls.parse ("file://".toList ++ pathname ++ hash) = some ⟨"file:".toList, [], pathname, hash⟩
  authority : ∀ server pathname hash url, '/' ∉ server → '\\' ∉ server →
    (∃ rest, pathname = '/' :: rest) → (∀ c ∈ pathname, isPathSign c = true ∨ c = '/') →
    UrlHash hash → SlashSafe (pathname ++ hash) →
    urls.parse ("file://".toList ++ server ++ pathname ++ hash) = some url →
    ∃ rest, url.pathname = '/' :: rest ∧ ¬ ReadsBackslash rest

variable {urls : UrlParser} {pathname path server : Text} {location : ParsedFileLocation}

theorem startsWith_scheme (t : Text) :
    startsWith (("file://".toList ++ t).map asciiLower) "file://".toList = true := by
  rw [List.map_append]
  exact List.isPrefixOf_iff_prefix.mpr (List.prefix_append _ _)

theorem parseManualFileUrl_local (hpath : UrlPath pathname) (hhash : UrlHash hash) :
    parseManualFileUrl ("file://".toList ++ pathname ++ hash) = some ⟨[], pathname, hash⟩ := by
  obtain ⟨rest, hslash⟩ := hpath.slash
  have hsharp : '#' ∉ pathname := fun hmem => absurd (hpath.signs '#' hmem) (by decide)
  have htrim : jsTrim (pathname ++ hash) = pathname ++ hash := by
    refine trimBy_of_forall fun c hc => not_blank_of_isUrlSign ?_
    rcases List.mem_append.mp hc with hc | hc
    · exact isUrlSign_of_path (hpath.signs c hc)
    · exact hhash.signs c hc
  obtain ⟨htake, hdrop⟩ := hhash.takeWhile hsharp
  have hstarts : startsWith pathname "/".toList = true := by
    rw [hslash]
    rfl
  unfold parseManualFileUrl
  rw [List.append_assoc, show ("file://".toList ++ (pathname ++ hash)).drop "file://".length =
    pathname ++ hash from rfl, htrim]
  dsimp only
  rw [htake, hdrop, if_neg (by rw [hslash]; simp), if_neg (by rw [hslash]; simp), if_pos hstarts]

/-- **The location of a URL without a host.** -/
theorem parse_local (hurls : FileUrls urls) (hpath : UrlPath pathname) (hhash : UrlHash hash) :
    parseFileUrlLocation urls numbers ("file://".toList ++ pathname ++ hash) =
      some ⟨buildLocalPathFromFileUrl [] pathname, (parseRecognizedFileUrlHash numbers hash).1,
        (parseRecognizedFileUrlHash numbers hash).2⟩ := by
  have hscheme := startsWith_scheme (pathname ++ hash)
  rw [← List.append_assoc] at hscheme
  unfold parseFileUrlLocation
  rw [hscheme, if_neg (by simp)]
  rcases hurls.regular pathname hash hpath hhash with hnone | hsome
  · rw [hnone]
    dsimp only
    rw [parseManualFileUrl_local hpath hhash]
    rfl
  · rw [hsome]
    dsimp only
    rw [if_neg (by simp)]

/-! ### URLs with a host -/

/-- A pathname whose first slash stands before no backslash is not read as one that does. -/
theorem decode_not {rest : Text} (h : ¬ ReadsBackslash rest) (more : Text) :
    decodeURIComponentSafely ('/' :: rest) ≠ '/' :: '\\' :: more := by
  intro heq
  unfold decodeURIComponentSafely at heq
  cases hdecode : Percent.decodeComponent ('/' :: rest) with
  | none =>
    rw [hdecode] at heq
    exact h (.inl ⟨more, (List.cons_eq_cons.mp heq).2⟩)
  | some decoded =>
    rw [hdecode] at heq
    obtain rfl : decoded = '/' :: '\\' :: more := heq
    unfold Percent.decodeComponent at hdecode
    rw [List.length_cons, Percent.decodeFrom_cons _ (by decide)] at hdecode
    obtain ⟨t, ht, hcons⟩ := Option.map_eq_some_iff.mp hdecode
    obtain ⟨-, rfl⟩ := List.cons_eq_cons.mp hcons
    rcases Percent.decodeFrom_head ht (by decide) (by decide) with hplain | hescaped
    · exact h (.inl hplain)
    · exact h (.inr hescaped)

theorem startsNamespace_cases {t : Text} (h : startsNamespace t = true) :
    (∃ rest, t = '/' :: '\\' :: '\\' :: rest) ∨ ∃ rest, t = '/' :: '/' :: '/' :: rest := by
  unfold startsNamespace at h
  split at h
  next a b mark sep rest =>
    rw [Bool.and_eq_true, Bool.and_eq_true, Bool.or_eq_true, Bool.and_eq_true, Bool.and_eq_true] at h
    rcases h.1.1 with ⟨ha, hb⟩ | ⟨ha, hb⟩
    · obtain rfl := of_decide_eq_true ha
      obtain rfl := of_decide_eq_true hb
      exact .inl ⟨_, rfl⟩
    · obtain rfl := of_decide_eq_true ha
      obtain rfl := of_decide_eq_true hb
      exact .inr ⟨_, rfl⟩
  next => cases h

theorem startsDrive_cases {t : Text} (h : startsDrive t = true) :
    ∃ c rest, t = '/' :: c :: ':' :: '/' :: rest ∧ c.isAlpha = true := by
  unfold startsDrive at h
  split at h
  next c rest => exact ⟨c, rest, rfl, h⟩
  next => cases h

theorem dropDrive_not {t : Text} (h : ∀ more, t ≠ '/' :: '\\' :: more) (more : Text) :
    (if startsDrive t then t.tail else t) ≠ '/' :: '\\' :: more := by
  split
  next hdrive =>
    obtain ⟨c, rest, rfl, hc⟩ := startsDrive_cases hdrive
    intro heq
    exact ne_of_isAlpha hc (by decide) (List.cons_eq_cons.mp heq).1
  next => exact h more

/-- Nor is the local path built from it. -/
theorem build_not (host : Text)
    (h : ∀ more, decodeURIComponentSafely pathname ≠ '/' :: '\\' :: more) (more : Text) :
    buildLocalPathFromFileUrl host pathname ≠ '/' :: '\\' :: more := by
  unfold buildLocalPathFromFileUrl
  dsimp only
  by_cases hnamespace : startsNamespace (decodeURIComponentSafely pathname) = true
  · rw [if_pos hnamespace]
    rcases startsNamespace_cases hnamespace with ⟨rest, hrest⟩ | ⟨rest, hrest⟩
    · exact absurd hrest (h _)
    · rw [hrest]
      simp
  · rw [if_neg hnamespace]
    apply dropDrive_not
    intro more'
    split
    · simp
    · exact h more'

theorem parseManualFileUrl_slash {url : Text} {parts : FileUrlParts}
    (h : parseManualFileUrl url = some parts)
    (hsafe : SlashSafe (url.drop "file://".length)) (more : Text) :
    decodeURIComponentSafely parts.pathname ≠ '/' :: '\\' :: more := by
  have hwithin : (jsTrim (url.drop "file://".length)).takeWhile (fun c => c ≠ '#') <:+:
      url.drop "file://".length :=
    (List.takeWhile_prefix _).isInfix.trans
      ((List.rdropWhile_prefix _ _).isInfix.trans (List.dropWhile_suffix _).isInfix)
  -- what is read as a pathname begins with a slash of the URL, with that before a drive, or not at all
  have hslash : ∀ {rest : Text}, '/' :: rest <:+: url.drop "file://".length → ¬ ReadsBackslash rest :=
    fun {rest} hrest => (hsafe.within hrest) [] rest rfl
  unfold parseManualFileUrl at h
  dsimp only at h
  generalize hpath : (jsTrim (url.drop "file://".length)).takeWhile (fun c => c ≠ '#') = path
    at h hwithin
  split at h
  · cases h
  split at h
  · cases h
  split at h
  next hstarts =>
    obtain rfl := Option.some.inj h
    obtain ⟨rest, rfl⟩ := List.isPrefixOf_iff_prefix.mp hstarts
    exact decode_not (hslash hwithin) more
  next =>
    split at h
    next hdrive =>
      obtain rfl := Option.some.inj h
      obtain ⟨c, hhost, hc⟩ := isDriveSegment_iff.mp hdrive
      rw [hhost]
      refine decode_not ?_ more
      rintro (⟨rest, hrest⟩ | ⟨high, low, rest, x, y, hrest, -⟩)
      · exact ne_of_isAlpha hc (by decide) (List.cons_eq_cons.mp hrest).1
      · exact ne_of_isAlpha hc (by decide) (List.cons_eq_cons.mp hrest).1
    next =>
      obtain rfl := Option.some.inj h
      show decodeURIComponentSafely (path.dropWhile fun c => c ≠ '/') ≠ _
      have hsuffix := (List.dropWhile_suffix (l := path) fun c => c ≠ '/').isInfix.trans hwithin
      cases hdrop : path.dropWhile fun c => c ≠ '/' with
      | nil =>
        intro heq
        cases heq
      | cons c rest =>
        have hc : c = '/' := by
          have hhead := List.head?_dropWhile_not (fun c => decide (c ≠ '/')) path
          rw [hdrop] at hhead
          simpa using hhead
        subst hc
        rw [hdrop] at hsuffix
        exact decode_not (hslash hsuffix) more

/-- **No URL with a host** is read as a path that begins with a slash and a backslash. -/
theorem parse_authority (hurls : FileUrls urls) (hserver : '/' ∉ server ∧ '\\' ∉ server)
    (hslash : ∃ rest, pathname = '/' :: rest)
    (hsigns : ∀ c ∈ pathname, isPathSign c = true ∨ c = '/') (hhash : UrlHash hash)
    (hsafe : SlashSafe (pathname ++ hash))
    (h : parseFileUrlLocation urls numbers ("file://".toList ++ server ++ pathname ++ hash) =
      some location) (more : Text) :
    location.path ≠ '/' :: '\\' :: more := by
  unfold parseFileUrlLocation at h
  split at h
  · cases h
  split at h
  next url hparse =>
    split at h
    · cases h
    · obtain rfl := Option.some.inj h
      obtain ⟨rest, hpath, hread⟩ :=
        hurls.authority server pathname hash url hserver.1 hserver.2 hslash hsigns hhash hsafe hparse
      refine build_not _ (fun more' => ?_) more
      rw [hpath]
      exact decode_not hread more'
  next =>
    obtain ⟨parts, hparts, rfl⟩ := Option.map_eq_some_iff.mp h
    refine build_not _ (fun more' => parseManualFileUrl_slash hparts ?_ more') more
    rw [List.append_assoc, List.append_assoc]
    show SlashSafe (server ++ (pathname ++ hash))
    exact hsafe.append_left hserver.1

end CodexMonitor.FileLinks
