import CodexMonitor.FileLinks.Reading

namespace CodexMonitor.FileLinks

open Text

/-!
# File links — locations and their URLs

The URL of a location is read as the location, unless the path is taken for a Windows path that it
is not: a slash and the backslash behind it are read as the beginning of a network path or of a
namespace path.

* `drive_roundTrip`, `posix_roundTrip` — the paths that are read back.
* `posix_taken` — a path that is taken for a Windows path is not.
* `fileUrl_roundTrip_iff` — when a location is read back.
-/

variable {urls : UrlParser} {numbers : Numbers} {line column : Option Nat}
  {path server : Text} {location : ParsedFileLocation}

/-! ### The round trip -/

/-- A drive-letter path, or a POSIX path that begins neither with two slashes nor like one. -/
def IsFilePath (path : Text) : Prop :=
  isDrivePath path = true ∨
    startsWith path "/".toList = true ∧ startsWith path "//".toList = false ∧
      startsDrive path = false

/-- The path that is expected back: the backslashes of a drive path become slashes. -/
def localForm (path : Text) : Text := if isDrivePath path then withSlashes path else path

/-- **The path is read as a Windows path** by one of the patterns for network and namespace
    paths. -/
def takenForWindows (path : Text) : Bool :=
  matchNamespaceUnc (withBackslashes path) || matchNamespaceDrive (withBackslashes path) ||
    (matchUnc (withBackslashes path)).isSome || startsNamespace path

theorem build_local (pathname : Text) (opaquePath : Bool) :
    buildLocalPathFromFileUrl [] (encodeFileUrlPathname pathname opaquePath) =
      if startsNamespace pathname || startsDrive pathname then pathname.tail else pathname := by
  unfold buildLocalPathFromFileUrl
  rw [decode_pathname]
  by_cases hnamespace : startsNamespace pathname = true
  · rw [if_pos hnamespace, if_pos (by rw [hnamespace]; rfl)]
  · simp [hnamespace]

/-- What a path without a host is read as. -/
theorem parse_pathname (hurls : FileUrls urls) (hnumbers : NumberTexts numbers) {rest : Text}
    {opaquePath : Bool} (hdots : NoDots ('/' :: rest))
    (hparts : toFileUrlParts path = some ([], '/' :: rest, opaquePath)) :
    parseFileUrlLocation urls numbers (toFileUrl numbers path line column) =
      some ⟨if startsNamespace ('/' :: rest) || startsDrive ('/' :: rest) then rest else '/' :: rest,
        (parseRecognizedFileUrlHash numbers (locationHash numbers line column)).1,
        (parseRecognizedFileUrlHash numbers (locationHash numbers line column)).2⟩ := by
  unfold toFileUrl
  rw [hparts]
  dsimp only
  rw [List.append_nil, parse_local hurls (urlPath_encode opaquePath hdots)
    (urlHash_locationHash hnumbers), build_local]
  rfl

theorem isDrivePath_cases (h : isDrivePath path = true) :
    ∃ c sep rest, path = c :: ':' :: sep :: rest ∧ c.isAlpha = true ∧ (sep = '\\' ∨ sep = '/') := by
  unfold isDrivePath at h
  split at h
  next c sep rest =>
    rw [Bool.and_eq_true, Bool.or_eq_true, decide_eq_true_iff, decide_eq_true_iff] at h
    exact ⟨c, sep, rest, rfl, h.1, h.2⟩
  next => cases h

/-- Network and namespace paths begin with a backslash. -/
theorem notWindows_of_head {c : Char} (hc : c ≠ '\\') (t : Text) :
    matchNamespaceUnc (c :: t) = false ∧ matchNamespaceDrive (c :: t) = false ∧
      matchUnc (c :: t) = none := by
  have hstrip : ∀ prefixRest, stripStart (c :: t) ('\\' :: prefixRest) = none := by
    intro prefixRest
    rw [stripStart, if_neg hc]
  refine ⟨?_, ?_, ?_⟩
  · unfold matchNamespaceUnc
    have hlower : asciiLower c ≠ '\\' := by
      rw [Ne, asciiLower_eq_iff (by decide)]
      exact hc
    have hne : eqIgnoreAsciiCase ((c :: t).take 8) "\\\\?\\UNC\\".toList = false := by
      unfold eqIgnoreAsciiCase
      rw [beq_eq_false_iff_ne]
      intro heq
      exact hlower (List.cons_eq_cons.mp heq).1
    rw [hne, Bool.false_and]
  · unfold matchNamespaceDrive
    rw [show "\\\\?\\".toList = '\\' :: "\\?\\".toList from rfl, hstrip]
  · unfold matchUnc
    rw [show "\\\\".toList = '\\' :: "\\".toList from rfl, hstrip]
    rfl

/-- A drive path is not taken for another one. -/
theorem drive_roundTrip (hurls : FileUrls urls) (hnumbers : NumberTexts numbers)
    (hdrive : isDrivePath path = true) (hdots : NoDots (localForm path)) :
    takenForWindows path = false ∧
      parseFileUrlLocation urls numbers (toFileUrl numbers path line column) =
        some ⟨localForm path,
          (parseRecognizedFileUrlHash numbers (locationHash numbers line column)).1,
          (parseRecognizedFileUrlHash numbers (locationHash numbers line column)).2⟩ := by
  have hlocal : localForm path = withSlashes path := if_pos hdrive
  obtain ⟨c, sep, rest, hpath, hc, hsep⟩ := isDrivePath_cases hdrive
  have hhead : withBackslashes path = c :: withBackslashes (':' :: sep :: rest) := by
    rw [hpath]
    show (if c = '/' then '\\' else c) :: _ = _
    rw [if_neg (ne_of_isAlpha hc (by decide))]
    rfl
  have hslashes : withSlashes path = c :: ':' :: '/' :: withSlashes rest := by
    rw [hpath]
    show (if c = '\\' then '/' else c) :: ':' :: (if sep = '\\' then '/' else sep) :: _ = _
    rw [if_neg (ne_of_isAlpha hc (by decide))]
    rcases hsep with rfl | rfl <;> rfl
  obtain ⟨hunc, hnamespace, hshare⟩ :=
    notWindows_of_head (ne_of_isAlpha hc (by decide)) (withBackslashes (':' :: sep :: rest))
  have hstart : startsNamespace path = false := by
    rw [hpath]
    unfold startsNamespace
    split
    next heq => exact absurd (List.cons_eq_cons.mp heq).1 (ne_of_isAlpha hc (by decide))
    next => rfl
  have hparts : toFileUrlParts path = some ([], '/' :: withSlashes path, false) := by
    unfold toFileUrlParts
    rw [hhead]
    dsimp only
    rw [hunc, hnamespace, hshare, if_neg Bool.false_ne_true, if_neg Bool.false_ne_true]
    dsimp only
    rw [if_pos hdrive]
  have hdots' : NoDots ('/' :: withSlashes path) := by
    rw [hlocal] at hdots
    intro s hs
    rw [splitOn, if_pos rfl] at hs
    rcases List.mem_cons.mp hs with rfl | hs
    · exact ⟨by decide, by decide⟩
    · exact hdots s hs
  refine ⟨?_, ?_⟩
  · unfold takenForWindows
    rw [hhead, hunc, hnamespace, hshare, hstart]
    rfl
  · have hdriveStart : startsDrive ('/' :: withSlashes path) = true := by
      rw [hslashes]
      exact hc
    rw [parse_pathname hurls hnumbers hdots' hparts, hdriveStart, Bool.or_true, if_pos rfl, hlocal]

/-! ### POSIX paths -/

theorem isDrivePath_slash (rest : Text) : isDrivePath ('/' :: rest) = false := by
  unfold isDrivePath
  split
  next heq =>
    obtain ⟨rfl, -⟩ := List.cons_eq_cons.mp heq
    rfl
  next => rfl

theorem notMem_withBackslashes (path : Text) : '/' ∉ withBackslashes path := by
  intro hmem
  obtain ⟨c, -, hc⟩ := List.mem_map.mp hmem
  by_cases hslash : c = '/'
  · rw [if_pos hslash] at hc
    cases hc
  · rw [if_neg hslash] at hc
    exact hslash hc

theorem notMem_withSlashes (path : Text) : '\\' ∉ withSlashes path := by
  intro hmem
  obtain ⟨c, -, hc⟩ := List.mem_map.mp hmem
  by_cases hslash : c = '\\'
  · rw [if_pos hslash] at hc
    cases hc
  · rw [if_neg hslash] at hc
    exact hslash hc

/-- The part that is matched and what follows it. -/
theorem matchComponent_spec {t component more : Text} (h : matchComponent t = some (component, more)) :
    t = component ++ more ∧ '\\' ∉ component := by
  unfold matchComponent at h
  dsimp only at h
  split at h
  · cases h
  · obtain ⟨rfl, rfl⟩ := Prod.mk.inj (Option.some.inj h)
    refine ⟨List.takeWhile_append_dropWhile.symm, fun hmem => ?_⟩
    exact absurd (List.mem_takeWhile_imp hmem) (by decide)

theorem matchUnc_spec {t share rest : Text} (h : matchUnc t = some (server, share, rest)) :
    t = "\\\\".toList ++ (server ++ ("\\".toList ++ (share ++ rest))) ∧
      '\\' ∉ server ∧ '\\' ∉ share := by
  unfold matchUnc at h
  obtain ⟨tail, htail, hshare⟩ := Option.bind_eq_some_iff.mp h
  rw [stripStart_eq_some_iff] at htail
  unfold matchShare at hshare
  obtain ⟨⟨server', more⟩, hserver, hshare⟩ := Option.bind_eq_some_iff.mp hshare
  obtain ⟨after, hafter, hshare⟩ := Option.bind_eq_some_iff.mp hshare
  obtain ⟨⟨share', rest'⟩, hcomponent, hshare⟩ := Option.bind_eq_some_iff.mp hshare
  rw [stripStart_eq_some_iff] at hafter
  dsimp only at hafter hshare
  split at hshare
  · cases hshare
  · cases hshare
    obtain ⟨hsplit, hnot⟩ := matchComponent_spec hserver
    obtain ⟨hsplit', hnot'⟩ := matchComponent_spec hcomponent
    exact ⟨by rw [htail, hsplit, hafter, hsplit'], hnot, hnot'⟩

/-- The pathname that is written for a share and what follows it. -/
theorem notMem_sharePathname {share : Text} (hshare : '\\' ∉ share) (rest : Text) :
    '\\' ∉ '/' :: share ++ if (trimStartBy (fun c => c = '/') (withSlashes rest)).isEmpty then []
      else '/' :: trimStartBy (fun c => c = '/') (withSlashes rest) := by
  intro hmem
  rw [List.cons_append, List.mem_cons, List.mem_append] at hmem
  rcases hmem with hmem | hmem | hmem
  · cases hmem
  · exact hshare hmem
  · split at hmem
    · cases hmem
    · rcases List.mem_cons.mp hmem with hmem | hmem
      · cases hmem
      · exact notMem_withSlashes rest ((List.dropWhile_sublist _).mem hmem)

/-- **A network path** is not read back as a path that begins with a slash and a backslash. -/
theorem unc_not (hurls : FileUrls urls) (hnumbers : NumberTexts numbers) {share rest : Text}
    (hserver : '/' ∉ server ∧ '\\' ∉ server) (hshare : '\\' ∉ share)
    (hparts : toFileUrlParts path = some (server,
      '/' :: share ++ (if (trimStartBy (fun c => c = '/') (withSlashes rest)).isEmpty then []
        else '/' :: trimStartBy (fun c => c = '/') (withSlashes rest)), false))
    (h : parseFileUrlLocation urls numbers (toFileUrl numbers path line column) = some location)
    (more : Text) : location.path ≠ '/' :: '\\' :: more := by
  have hplain := notMem_sharePathname hshare rest
  have hhash : UrlHash (locationHash numbers line column) := urlHash_locationHash hnumbers
  unfold toFileUrl at h
  rw [hparts] at h
  dsimp only at h
  generalize hpathname : '/' :: share ++ (if (trimStartBy (fun c => c = '/')
    (withSlashes rest)).isEmpty then [] else '/' :: trimStartBy (fun c => c = '/')
    (withSlashes rest)) = pathname at h hplain
  obtain ⟨tail, htail⟩ : ∃ tail, pathname = '/' :: tail := ⟨_, hpathname.symm⟩
  refine parse_authority hurls hserver ?_ ?_ hhash ?_ h more
  · rw [htail]
    exact encodeFileUrlPathname_cons tail false
  · exact fun c hc => isPathSign_of_mem hc
  · rw [encodeFileUrlPathname_eq]
    refine slashSafe_joinWith (fun i piece => (encodePiece_spec false i piece).1) (fun i piece hmem => ?_)
      (fun piece hpiece hmem => ?_) hhash.plain
    · exact absurd ((encodePiece_spec false i piece).2 '/' hmem) (by decide)
    · exact hplain (mem_of_mem_splitOn hpiece hmem)

theorem posix_parts {rest : Text} (hpath : path = '/' :: rest)
    (hunc : ¬ matchNamespaceUnc (withBackslashes path) = true)
    (hnamespace : ¬ matchNamespaceDrive (withBackslashes path) = true)
    (hshare : matchUnc (withBackslashes path) = none) :
    toFileUrlParts path = some ([], '/' :: rest, false) := by
  unfold toFileUrlParts
  dsimp only
  rw [if_neg hunc, if_neg hnamespace, hshare, hpath]
  dsimp only
  rw [isDrivePath_slash, if_neg Bool.false_ne_true]
  rfl

/-- A POSIX path that is not taken for a Windows path is read back. -/
theorem posix_roundTrip (hurls : FileUrls urls) (hnumbers : NumberTexts numbers) {rest : Text}
    (hpath : path = '/' :: rest) (hdrive : startsDrive path = false) (hdots : NoDots path)
    (htaken : takenForWindows path = false) :
    parseFileUrlLocation urls numbers (toFileUrl numbers path line column) =
      some ⟨path, (parseRecognizedFileUrlHash numbers (locationHash numbers line column)).1,
        (parseRecognizedFileUrlHash numbers (locationHash numbers line column)).2⟩ := by
  unfold takenForWindows at htaken
  simp only [Bool.or_eq_false_iff, Option.isSome_eq_false_iff, Option.isNone_iff_eq_none] at htaken
  obtain ⟨⟨⟨hunc, hnamespace⟩, hshare⟩, hstart⟩ := htaken
  have hparts := posix_parts hpath (by rw [hunc]; simp) (by rw [hnamespace]; simp) hshare
  rw [hpath] at hdots hstart hdrive
  rw [parse_pathname hurls hnumbers hdots hparts, hstart, hdrive, hpath]
  rfl

/-- A path that is taken for a Windows path is not read back. -/
theorem posix_taken (hurls : FileUrls urls) (hnumbers : NumberTexts numbers) {rest : Text}
    (hpath : path = '/' :: rest) (hfirst : startsWith path "//".toList = false)
    (hdots : NoDots path) (htaken : takenForWindows path = true)
    (h : parseFileUrlLocation urls numbers (toFileUrl numbers path line column) = some location) :
    location.path ≠ path := by
  have hhead : withBackslashes path = '\\' :: withBackslashes rest := by
    rw [hpath]
    rfl
  by_cases hnamespace : matchNamespaceUnc (withBackslashes path) = true ∨
      matchNamespaceDrive (withBackslashes path) = true
  · -- it comes back with backslashes
    have hparts : toFileUrlParts path = some ([], '/' :: withBackslashes path, true) := by
      unfold toFileUrlParts
      dsimp only
      by_cases hunc : matchNamespaceUnc (withBackslashes path) = true
      · rw [if_pos hunc]
      · rw [if_neg hunc, if_pos (hnamespace.resolve_left hunc)]
    have hdots' : NoDots ('/' :: withBackslashes path) := by
      intro s hs
      rw [splitOn, if_pos rfl, splitOn_of_notMem (notMem_withBackslashes path), hhead] at hs
      simp only [List.mem_cons, List.not_mem_nil, or_false] at hs
      rcases hs with rfl | rfl
      · exact ⟨by decide, by decide⟩
      · exact ⟨fun heq => absurd (List.cons_eq_cons.mp heq).1 (by decide),
          fun heq => absurd (List.cons_eq_cons.mp heq).1 (by decide)⟩
    rw [parse_pathname hurls hnumbers hdots' hparts] at h
    obtain rfl := Option.some.inj h
    show (if _ then withBackslashes path else '/' :: withBackslashes path) ≠ path
    split
    · rw [hhead, hpath]
      simp
    · intro heq
      have hlength := congrArg List.length heq
      rw [List.length_cons, withBackslashes, List.length_map] at hlength
      omega
  · obtain ⟨hunc, hnamespaceDrive⟩ := not_or.mp hnamespace
    cases hshare : matchUnc (withBackslashes path) with
    | some parts =>
      obtain ⟨server, share, more⟩ := parts
      have hparts : toFileUrlParts path = some (server, '/' :: share ++
          (if (trimStartBy (fun c => c = '/') (withSlashes more)).isEmpty then []
            else '/' :: trimStartBy (fun c => c = '/') (withSlashes more)), false) := by
        unfold toFileUrlParts
        dsimp only
        rw [if_neg hunc, if_neg hnamespaceDrive, hshare]
      obtain ⟨hsplit, hserver, hshareNot⟩ := matchUnc_spec hshare
      have hserver' : '/' ∉ server := by
        intro hmem
        apply notMem_withBackslashes path
        rw [hsplit]
        exact List.mem_append_right _ (List.mem_append_left _ hmem)
      -- the second sign of the path is a backslash
      obtain ⟨tail, htail⟩ : ∃ tail, path = '/' :: '\\' :: tail := by
        rw [hhead] at hsplit
        cases rest with
        | nil => cases (List.cons_eq_cons.mp hsplit).2
        | cons b tail =>
          have hb : (if b = '/' then '\\' else b) = '\\' :=
            (List.cons_eq_cons.mp (List.cons_eq_cons.mp hsplit).2).1
          by_cases hslash : b = '/'
          · rw [hpath, hslash] at hfirst
            cases hfirst
          · rw [if_neg hslash] at hb
            exact ⟨tail, by rw [hpath, hb]⟩
      have hnot := unc_not hurls hnumbers ⟨hserver', hserver⟩ hshareNot hparts h tail
      rwa [htail]
    | none =>
      have hstart : startsNamespace path = true := by
        unfold takenForWindows at htaken
        rw [Bool.not_eq_true] at hunc hnamespaceDrive
        rw [hunc, hnamespaceDrive, hshare] at htaken
        exact htaken
      have hparts := posix_parts hpath hunc hnamespaceDrive hshare
      rw [hpath] at hdots hstart
      rw [parse_pathname hurls hnumbers hdots hparts] at h
      obtain rfl := Option.some.inj h
      show (if _ then rest else '/' :: rest) ≠ path
      rw [hstart, Bool.true_or, if_pos rfl, hpath]
      exact fun heq => absurd (congrArg List.length heq) (by simp)

/-- **When a location is read back.**  For a drive path or a POSIX path without segments of dots,
    and a line and a column from one on, the URL is read as the location exactly if the path is not
    taken for a Windows path and the numbers are printed by their digits. -/
theorem fileUrl_roundTrip_iff (hurls : FileUrls urls) (hnumbers : NumberTexts numbers)
    (path : Text) (line column : Option Nat) (hpath : IsFilePath path)
    (hdots : NoDots (localForm path)) (hline : ∀ l, line = some l → 1 ≤ l)
    (hcolumn : ∀ k, column = some k → 1 ≤ k) (hnone : line = none → column = none) :
    parseFileUrlLocation urls numbers (toFileUrl numbers path line column) =
        some ⟨localForm path, line, column⟩ ↔
      takenForWindows path = false ∧ (∀ l, line = some l → l < exponentFrom) ∧
        ∀ k, column = some k → k < exponentFrom := by
  rw [← hash_roundTrip hnumbers hline hcolumn hnone]
  have hboth : ∀ p : Option Nat × Option Nat, (p = (line, column)) ↔
      some (⟨localForm path, p.1, p.2⟩ : ParsedFileLocation) =
        some ⟨localForm path, line, column⟩ := by
    intro p
    rw [Option.some_inj, ParsedFileLocation.mk.injEq, Prod.ext_iff]
    exact (and_iff_right rfl).symm
  by_cases hdrive : isDrivePath path = true
  · obtain ⟨htaken, hparse⟩ := drive_roundTrip hurls hnumbers hdrive hdots
    rw [hparse, ← hboth]
    exact (and_iff_right htaken).symm
  · obtain ⟨hslash, hfirst, hstart⟩ := hpath.resolve_left hdrive
    have hlocal : localForm path = path := if_neg hdrive
    obtain ⟨rest, hrest⟩ := List.isPrefixOf_iff_prefix.mp hslash
    rw [hlocal] at hdots hboth ⊢
    cases htaken : takenForWindows path with
    | false =>
      rw [posix_roundTrip hurls hnumbers hrest.symm hstart hdots htaken, ← hboth]
      exact (and_iff_right rfl).symm
    | true =>
      refine iff_of_false (fun h => ?_) (fun h => by cases h.1)
      exact posix_taken hurls hnumbers hrest.symm hfirst hdots htaken h rfl

/-! ### A location that is read back, and one that is not -/

/-- `new URL` on file URLs without a query that need no normalization. -/
def plainUrls : UrlParser where
  parse url := (stripStart url "file://".toList).map fun rest =>
    let location := rest.takeWhile fun c => c ≠ '#'
    let pathname := location.dropWhile fun c => c ≠ '/'
    ⟨"file:".toList, location.takeWhile fun c => c ≠ '/',
      if pathname.isEmpty then "/".toList else pathname, rest.dropWhile fun c => c ≠ '#'⟩

theorem fileUrls_plainUrls : FileUrls plainUrls where
  regular := by
    intro pathname hash hpath hhash
    obtain ⟨rest, hslash⟩ := hpath.slash
    have hsharp : '#' ∉ pathname := fun hmem => absurd (hpath.signs '#' hmem) (by decide)
    obtain ⟨htake, hdrop⟩ := hhash.takeWhile hsharp
    right
    unfold plainUrls
    dsimp only
    rw [List.append_assoc, stripStart_append, Option.map_some, htake, hdrop, hslash]
    rfl
  authority := by
    intro server pathname hash url hslash hbackslash hpathname hsigns hhash hsafe hparse
    unfold plainUrls at hparse
    dsimp only at hparse
    rw [List.append_assoc, List.append_assoc, stripStart_append, Option.map_some] at hparse
    obtain rfl := Option.some.inj hparse
    have hsafe' : SlashSafe (server ++ (pathname ++ hash)) := hsafe.append_left hslash
    have hwithin := (List.dropWhile_suffix (l := (server ++ (pathname ++ hash)).takeWhile
      fun c => decide (c ≠ '#')) fun c => decide (c ≠ '/')).isInfix.trans
        (List.takeWhile_prefix fun c => decide (c ≠ '#')).isInfix
    dsimp only
    cases hdrop : ((server ++ (pathname ++ hash)).takeWhile fun c => decide (c ≠ '#')).dropWhile
        fun c => decide (c ≠ '/') with
    | nil =>
      refine ⟨[], rfl, ?_⟩
      rintro (⟨rest, hrest⟩ | ⟨high, low, rest, x, y, hrest, -⟩)
      · cases hrest
      · cases hrest
    | cons c rest =>
      have hc : c = '/' := by
        have hhead := List.head?_dropWhile_not (fun c => decide (c ≠ '/'))
          ((server ++ (pathname ++ hash)).takeWhile fun c => decide (c ≠ '#'))
        rw [hdrop] at hhead
        simpa using hhead
      subst hc
      rw [hdrop] at hwithin
      exact ⟨rest, rfl, (hsafe'.within hwithin) [] rest rfl⟩

/-- Decimal digits, with an exponent from `10 ^ 21` on. -/
def decimals : Numbers where
  print n := if n < exponentFrom then Nat.toDigits 10 n
    else Nat.toDigits 10 (n / exponentFrom) ++ "e+21".toList
  parseInt t :=
    let digits := t.takeWhile Char.isDigit
    if digits.isEmpty then none else some (Nat.ofDigitChars 10 digits 0)

theorem numberTexts_decimals : NumberTexts decimals where
  signs := by
    intro n c hc
    have hdigits : ∀ m, ∀ d ∈ Nat.toDigits 10 m, d.isDigit = true := fun m d hd =>
      Nat.isDigit_of_mem_toDigits (by decide) (by decide) hd
    change c ∈ (if n < exponentFrom then Nat.toDigits 10 n
      else Nat.toDigits 10 (n / exponentFrom) ++ "e+21".toList) at hc
    split at hc
    · exact .inl (hdigits n c hc)
    · rcases List.mem_append.mp hc with hc | hc
      · exact .inl (hdigits _ c hc)
      · have hall : ∀ d ∈ "e+21".toList, d.isDigit = true ∨ d ∈ ['e', '+', '.'] := by decide
        exact hall c hc
  digits := by
    intro n hn
    have hprint : decimals.print n = Nat.toDigits 10 n := if_pos hn
    have hall : ∀ c ∈ Nat.toDigits 10 n, c.isDigit = true := fun c hc =>
      Nat.isDigit_of_mem_toDigits (by decide) (by decide) hc
    have hne : Nat.toDigits 10 n ≠ [] := Nat.toDigits_ne_nil
    rw [hprint]
    refine ⟨hne, hall, ?_⟩
    have htake : (Nat.toDigits 10 n).takeWhile Char.isDigit = Nat.toDigits 10 n :=
      List.takeWhile_eq_self_iff.mpr hall
    show (if ((Nat.toDigits 10 n).takeWhile Char.isDigit).isEmpty then none
      else some (Nat.ofDigitChars 10 ((Nat.toDigits 10 n).takeWhile Char.isDigit) 0)) = some n
    rw [htake, if_neg (by simp), Nat.ofDigitChars_toDigits (by decide) (by decide)]
  exponent := by
    intro n hn
    have hprint : decimals.print n = Nat.toDigits 10 (n / exponentFrom) ++ "e+21".toList :=
      if_neg (Nat.not_lt.mpr hn)
    rw [hprint]
    exact List.mem_append_right _ (by decide)

/-- A drive path with a space, a line and a column. -/
theorem drivePath_readBack :
    parseFileUrlLocation plainUrls decimals
        (toFileUrl decimals "C:\\my docs\\a.rs".toList (some 12) (some 3)) =
      some ⟨"C:/my docs/a.rs".toList, some 12, some 3⟩ := by
  have hiff := fileUrl_roundTrip_iff fileUrls_plainUrls numberTexts_decimals
    "C:\\my docs\\a.rs".toList (some 12) (some 3) (.inl (by decide)) (by unfold NoDots; decide)
    (by simp) (by simp) (by simp)
  exact hiff.mpr ⟨by decide, by simp [exponentFrom], by simp [exponentFrom]⟩

/-- A name that begins with a backslash is taken for a server. -/
theorem backslashName_lost :
    FileUrls plainUrls ∧ NumberTexts decimals ∧ IsFilePath "/\\srv/x".toList ∧
      NoDots (localForm "/\\srv/x".toList) ∧
      parseFileUrlLocation plainUrls decimals (toFileUrl decimals "/\\srv/x".toList none none) =
        some ⟨"//srv/x".toList, none, none⟩ ∧
      localForm "/\\srv/x".toList = "/\\srv/x".toList :=
  ⟨fileUrls_plainUrls, numberTexts_decimals, .inr (by decide), by unfold NoDots; decide, by decide,
    by decide⟩

end CodexMonitor.FileLinks
