import YogSothoth.Framework.Utf8

namespace YogSothoth.Bootstrap

open String

/-- `REDACTED`. -/
def redacted : List Char :=
  ['*', '*', '*', 'R', 'E', 'D', 'A', 'C', 'T', 'E', 'D', '*', '*', '*']

/-- `MIN_SCRUBBABLE`, in bytes. -/
def minScrubbable : Nat := 4

def separator : List Char := [':', '/', '/']

def postgres : List Char := ['p', 'o', 's', 't', 'g', 'r', 'e', 's']

def postgresql : List Char := postgres ++ ['q', 'l']

def isPostgres (url : List Char) : Bool :=
  (postgres ++ separator).isPrefixOf url || (postgresql ++ separator).isPrefixOf url

/-- What ends an authority. -/
def endsAuthority (c : Char) : Bool := c == '/' || c == '?' || c == '#'

/-- What ends a path. -/
def endsPath (c : Char) : Bool := c == '?' || c == '#'

/-- The branch of `redact_password` for a userinfo that ends inside the authority, at `atSign`. -/
def redactUserinfo (url authority : List Char) (start atSign : Nat) : Option (List Char) :=
  (sliceTo authority atSign).bind fun userinfo =>
    match findWhere (· == ':') userinfo with
    | none =>
      if isPostgres url then some url
      else (sliceTo url start).bind fun carrier =>
        (sliceFrom url (start + atSign)).map fun host => carrier ++ (redacted ++ host)
    | some colon =>
      (sliceTo url start).bind fun carrier => (sliceTo userinfo colon).bind fun role =>
        (sliceFrom url (start + atSign)).map fun host =>
          carrier ++ (role ++ ':' :: (redacted ++ host))

/-- The arms of `redact_password`, once the authority is told from what stands beyond it. -/
def redactAuthority (url authority beyond : List Char) (start : Nat) : Option (List Char) :=
  match findLast '@' authority, decide ('@' ∈ beyond) with
  | some atSign, false => redactUserinfo url authority start atSign
  | _, atBeyondAuthority =>
    if atBeyondAuthority && decide (':' ∈ authority) then
      (sliceTo url start).map fun carrier => carrier ++ redacted
    else some url

def redactPassword (url : List Char) : Option (List Char) :=
  match findText separator url with
  | none => some url
  | some schemeEnd =>
    let start := schemeEnd + utf8Len separator
    (sliceFrom url start).bind fun rest =>
      let authorityEnd := (findWhere endsAuthority rest).getD (utf8Len rest)
      (sliceTo rest authorityEnd).bind fun authority =>
        (sliceFrom rest authorityEnd).bind fun beyond => redactAuthority url authority beyond start

/-- `redact_path` from where the first `/` of the authority stands. -/
def redactPathFrom (url : List Char) (pathStart : Nat) : Option (List Char) :=
  (sliceFrom url pathStart).bind fun rest =>
    let pathEnd := (findWhere endsPath rest).elim (utf8Len url) (pathStart + ·)
    (sliceText url pathStart pathEnd).bind fun path =>
      if (trimMatches '/' path).isEmpty then some url
      else (sliceTo url pathStart).bind fun before =>
        (sliceFrom url pathEnd).map fun after => before ++ '/' :: (redacted ++ after)

def redactPath (url : List Char) : Option (List Char) :=
  if isPostgres url then some url
  else
    match findText separator url with
    | none => some url
    | some schemeEnd =>
      let authorityStart := schemeEnd + utf8Len separator
      (sliceFrom url authorityStart).bind fun rest =>
        match findWhere (· == '/') rest with
        | none => some url
        | some offset => redactPathFrom url (authorityStart + offset)

/-- Everything after the first `mark` replaced. -/
def redactAfter (mark : Char) (url : List Char) : Option (List Char) :=
  match findWhere (· == mark) url with
  | some idx => (sliceTo url idx).map fun before => before ++ mark :: redacted
  | none => some url

def redactQuery : List Char → Option (List Char) := redactAfter '?'

def redactFragment : List Char → Option (List Char) := redactAfter '#'

/-- `redact`; none is a panic. -/
def redact (url : List Char) : Option (List Char) :=
  (redactPassword url).bind fun url => (redactPath url).bind fun url =>
    (redactQuery url).bind redactFragment

/-- The loop of `secret_parts` over the chunks, with the parts found so far and the cursor. -/
def secretPartsLoop (url : List Char) :
    List (List Char) → List (List Char) → Nat → Option (List (List Char))
  | [], parts, cursor =>
    if cursor < utf8Len url then (sliceFrom url cursor).map fun part => parts ++ [part]
    else some parts
  | chunk :: chunks, parts, cursor =>
    if chunk = [] then secretPartsLoop url chunks parts cursor
    else (sliceFrom url cursor).bind fun rest =>
      match findText chunk rest with
      | none => some [url]
      | some offset =>
        if cursor < cursor + offset then (sliceText url cursor (cursor + offset)).bind fun part =>
          secretPartsLoop url chunks (parts ++ [part]) (cursor + offset + utf8Len chunk)
        else secretPartsLoop url chunks parts (cursor + offset + utf8Len chunk)

def secretParts (url : List Char) : Option (List (List Char)) :=
  (redact url).bind fun shown => secretPartsLoop url (pieces redacted shown) [] 0

/-- One turn of the loop of `scrub`. -/
def scrubPart (out part : List Char) : List Char :=
  if minScrubbable ≤ utf8Len part then replaceAll part redacted out else out

/-- `SecretUrl::scrub`; none is a panic. -/
def scrub (url haystack : List Char) : Option (List Char) :=
  (redact url).bind fun shown =>
    (secretParts url).map fun parts => parts.foldl scrubPart (replaceAll url shown haystack)

end YogSothoth.Bootstrap
