import CodexMonitor.Lib.PercentEncoding

namespace CodexMonitor.FileLinks

open Text

/-!
# File links — file URLs

`utils/fileLinks.ts`: a path with a line and a column as a file URL, and the reading of such a URL.

* `UrlParser`, `Numbers` — `new URL`, and how numbers are printed and read.
* `toFileUrl` — the URL of a location, with the forms of Windows paths.
* `parseFileUrlLocation` — the location of a URL, with the fallback for what `new URL` rejects.
-/

structure ParsedFileLocation where
  path : Text
  line : Option Nat
  column : Option Nat
  deriving DecidableEq, Repr

structure Url where
  protocol : Text
  host : Text
  pathname : Text
  hash : Text
  deriving DecidableEq, Repr

/-- `new URL(url)`; `none` where it throws. -/
structure UrlParser where
  parse : Text → Option Url

/-- Whole numbers in a template literal, and `Number.parseInt`; `none` for what is not finite. -/
structure Numbers where
  print : Nat → Text
  parseInt : Text → Option Nat

/-! ### Reading a URL -/

def parsePositiveInteger (numbers : Numbers) (value : Option Text) : Option Nat :=
  value.bind fun value =>
    if value.isEmpty then none else (numbers.parseInt value).filter fun parsed => 0 < parsed

def decodeURIComponentSafely (value : Text) : Text :=
  (Percent.decodeComponent value).getD value

/-- `FILE_URL_LOCATION_HASH_PATTERN`: the digits of the line and those of the column. -/
def matchLocationHash : Text → Option (Text × Option Text)
  | '#' :: l :: rest =>
      let line := rest.takeWhile Char.isDigit
      if asciiLower l ≠ 'l' || line.isEmpty then none
      else match rest.dropWhile Char.isDigit with
        | [] => some (line, none)
        | c :: column =>
            if asciiLower c = 'c' && !column.isEmpty && column.all Char.isDigit then
              some (line, some column)
            else none
  | _ => none

def parseRecognizedFileUrlHash (numbers : Numbers) (hash : Text) : Option Nat × Option Nat :=
  match matchLocationHash hash with
  | none => (none, none)
  | some (lineValue, columnValue) =>
      let line := parsePositiveInteger numbers (some lineValue)
      (line, if line = none then none else parsePositiveInteger numbers columnValue)

/-- `/^\/(?:\\\\|\/\/)[?.][\\/]/` -/
def startsNamespace : Text → Bool
  | '/' :: a :: b :: mark :: sep :: _ =>
      ((a = '\\' && b = '\\') || (a = '/' && b = '/')) && (mark = '?' || mark = '.') &&
        (sep = '\\' || sep = '/')
  | _ => false

/-- `/^\/[A-Za-z]:\//` -/
def startsDrive : Text → Bool
  | '/' :: c :: ':' :: '/' :: _ => c.isAlpha
  | _ => false

def buildLocalPathFromFileUrl (host pathname : Text) : Text :=
  let decodedPath := decodeURIComponentSafely pathname
  if startsNamespace decodedPath then decodedPath.tail
  else
    let path :=
      if !host.isEmpty && host ≠ "localhost".toList then
        let normalizedPath :=
          if startsWith decodedPath "/".toList then decodedPath else '/' :: decodedPath
        "//".toList ++ host ++ normalizedPath
      else decodedPath
    if startsDrive path then path.tail else path

/-- `/^[A-Za-z]:$/` -/
def isDriveSegment : Text → Bool
  | [c, ':'] => c.isAlpha
  | _ => false

structure FileUrlParts where
  host : Text
  pathname : Text
  hash : Text
  deriving DecidableEq, Repr

def parseManualFileUrl (url : Text) : Option FileUrlParts :=
  let manualPath := jsTrim (url.drop "file://".length)
  if manualPath.isEmpty then none
  else
    let pathWithHost := manualPath.takeWhile fun c => c ≠ '#'
    let hash := manualPath.dropWhile fun c => c ≠ '#'
    if pathWithHost.isEmpty then none
    else if startsWith pathWithHost "/".toList then some ⟨[], pathWithHost, hash⟩
    else
      let host := pathWithHost.takeWhile fun c => c ≠ '/'
      let pathname := pathWithHost.dropWhile fun c => c ≠ '/'
      if isDriveSegment host then some ⟨[], '/' :: host ++ pathname, hash⟩
      else some ⟨host, pathname, hash⟩

def parseFileUrlLocation (urls : UrlParser) (numbers : Numbers) (url : Text) :
    Option ParsedFileLocation :=
  if !startsWith (url.map asciiLower) "file://".toList then none
  else match urls.parse url with
    | some parsed =>
        if parsed.protocol ≠ "file:".toList then none
        else
          let (line, column) := parseRecognizedFileUrlHash numbers parsed.hash
          some ⟨buildLocalPathFromFileUrl parsed.host parsed.pathname, line, column⟩
    | none =>
        (parseManualFileUrl url).map fun parts =>
          let (line, column) := parseRecognizedFileUrlHash numbers parts.hash
          ⟨buildLocalPathFromFileUrl parts.host parts.pathname, line, column⟩

/-! ### Writing a URL -/

def encodeFileUrlPathname (pathname : Text) (treatPathnameAsOpaque : Bool) : Text :=
  joinWith "/".toList ((splitOn '/' pathname).mapIdx fun index segment =>
    if !treatPathnameAsOpaque && index = 1 && isDriveSegment segment then segment
    else Percent.encodeComponent segment)

/-- `path.replace(/\//g, "\\")` -/
def withBackslashes (path : Text) : Text := path.map fun c => if c = '/' then '\\' else c

def withSlashes (path : Text) : Text := path.map fun c => if c = '\\' then '/' else c

/-- What `.` does not match. -/
def isLineTerminator (c : Char) : Bool :=
  c = '\n' || c = '\r' || c.toNat = 0x2028 || c.toNat = 0x2029

/-- `([^\\]+)` and what follows it. -/
def matchComponent (t : Text) : Option (Text × Text) :=
  let component := t.takeWhile fun c => c ≠ '\\'
  if component.isEmpty then none else some (component, t.dropWhile fun c => c ≠ '\\')

/-- `([^\\]+)\\([^\\]+)(.*)$`: the server, the share and the rest. -/
def matchShare (t : Text) : Option (Text × Text × Text) := do
  let (server, more) ← matchComponent t
  let (share, rest) ← matchComponent (← stripStart more "\\".toList)
  if rest.any isLineTerminator then none else some (server, share, rest)

/-- `/^\\\\\?\\UNC\\([^\\]+)\\([^\\]+)(.*)$/i` -/
def matchNamespaceUnc (t : Text) : Bool :=
  eqIgnoreAsciiCase (t.take 8) "\\\\?\\UNC\\".toList && (matchShare (t.drop 8)).isSome

/-- `/^\\\\\?\\([A-Za-z]:)(.*)$/` -/
def matchNamespaceDrive (t : Text) : Bool :=
  match stripStart t "\\\\?\\".toList with
  | some (c :: ':' :: rest) => c.isAlpha && !rest.any isLineTerminator
  | _ => false

/-- `/^\\\\([^\\]+)\\([^\\]+)(.*)$/` -/
def matchUnc (t : Text) : Option (Text × Text × Text) :=
  (stripStart t "\\\\".toList).bind matchShare

/-- `/^[A-Za-z]:[\\/]/` -/
def isDrivePath : Text → Bool
  | c :: ':' :: sep :: _ => c.isAlpha && (sep = '\\' || sep = '/')
  | _ => false

/-- The host, the pathname, and whether the pathname is opaque. -/
def toFileUrlParts (path : Text) : Option (Text × Text × Bool) :=
  let normalizedWindowsPath := withBackslashes path
  if matchNamespaceUnc normalizedWindowsPath then some ([], '/' :: normalizedWindowsPath, true)
  else if matchNamespaceDrive normalizedWindowsPath then
    some ([], '/' :: normalizedWindowsPath, true)
  else match matchUnc normalizedWindowsPath with
    | some (server, share, rest) =>
        let normalizedRest := trimStartBy (fun c => c = '/') (withSlashes rest)
        some (server,
          '/' :: share ++ if normalizedRest.isEmpty then [] else '/' :: normalizedRest, false)
    | none =>
        if isDrivePath path then some ([], '/' :: withSlashes path, false)
        else if startsWith path "/".toList then some ([], path, false)
        else none

/-- The fragment of a location. -/
def locationHash (numbers : Numbers) (line column : Option Nat) : Text :=
  match line with
  | none => []
  | some line =>
      "#L".toList ++ numbers.print line ++ match column with
        | none => []
        | some column => 'C' :: numbers.print column

def toFileUrl (numbers : Numbers) (path : Text) (line column : Option Nat) : Text :=
  let base := match toFileUrlParts path with
    | some (host, pathname, treatPathnameAsOpaque) =>
        "file://".toList ++ host ++ encodeFileUrlPathname pathname treatPathnameAsOpaque
    | none => path
  base ++ locationHash numbers line column

end CodexMonitor.FileLinks
