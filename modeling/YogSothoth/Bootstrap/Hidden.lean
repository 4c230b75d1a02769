import YogSothoth.Bootstrap.Secret

namespace YogSothoth.Bootstrap

open String

/-- What `redact_password` makes of a userinfo. -/
def hideUserinfo (keeps : Bool) (userinfo : List Char) : List Char :=
  if ':' ∈ userinfo then userinfo.takeWhile (fun c => !(c == ':')) ++ ':' :: redacted
  else if keeps then userinfo
  else redacted

/-- What `redact_password` makes of the text after the scheme. -/
def hideCredentials (keeps : Bool) (rest : List Char) : List Char :=
  if '@' ∈ rest.dropWhile (fun c => !endsAuthority c) then
    if ':' ∈ rest.takeWhile (fun c => !endsAuthority c) then redacted else rest
  else
    (splitLast '@' (rest.takeWhile (fun c => !endsAuthority c))).elim rest fun r =>
      hideUserinfo keeps r.1 ++ '@' :: (r.2 ++ rest.dropWhile (fun c => !endsAuthority c))

/-- A change of what follows the scheme. -/
def afterScheme (change : List Char → List Char) (url : List Char) : List Char :=
  (splitFirst separator url).elim url fun r => r.1 ++ (separator ++ change r.2)

def hidePassword (url : List Char) : List Char :=
  afterScheme (hideCredentials (isPostgres url)) url

/-- What `redact_path` makes of the text from the first `/` on. -/
def hideRoute (route : List Char) : List Char :=
  if (route.takeWhile (fun c => !endsPath c)).all (· == '/') then route
  else '/' :: (redacted ++ route.dropWhile (fun c => !endsPath c))

def hidePath (url : List Char) : List Char :=
  if isPostgres url then url
  else afterScheme (fun rest => rest.takeWhile (fun c => !(c == '/')) ++
    hideRoute (rest.dropWhile (fun c => !(c == '/')))) url

def hideAfter (mark : Char) (url : List Char) : List Char :=
  if mark ∈ url then url.takeWhile (fun c => !(c == mark)) ++ mark :: redacted else url

/-- The redaction of a text as a whole, without offsets. -/
def hide (url : List Char) : List Char := hideAfter '#' (hideAfter '?' (hidePath (hidePassword url)))

/-- The texts that `redact` hides, or the whole URL. -/
def hiddenParts (url : List Char) : List (List Char) :=
  (gaps (pieces redacted (hide url)) url).getD [url]

def scrubbed (url haystack : List Char) : List Char :=
  (hiddenParts url).foldl scrubPart (replaceAll url (hide url) haystack)


section Offsets

variable (url start : List Char)

theorem redactUserinfo_eq (userinfo host beyond : List Char)
    (hurl : url = start ++ (userinfo ++ '@' :: (host ++ beyond))) :
    redactUserinfo url (userinfo ++ '@' :: host) (utf8Len start) (utf8Len userinfo) =
      some (start ++ (hideUserinfo (isPostgres url) userinfo ++ '@' :: (host ++ beyond))) := by
  have hstart : sliceTo url (utf8Len start) = some start := by
    rw [hurl, sliceTo_append]
  have hhost : sliceFrom url (utf8Len start + utf8Len userinfo) =
      some ('@' :: (host ++ beyond)) := by
    rw [hurl, ← utf8Len_append, ← List.append_assoc, sliceFrom_append]
  unfold redactUserinfo hideUserinfo
  rw [sliceTo_append, Option.bind_some, findWhere_char]
  by_cases hcolon : ':' ∈ userinfo
  · have hrole := sliceTo_append (userinfo.takeWhile (fun c => !(c == ':')))
      (userinfo.dropWhile (fun c => !(c == ':')))
    rw [List.takeWhile_append_dropWhile] at hrole
    simp only [if_pos hcolon, hstart, hhost, hrole, Option.bind_some, Option.map_some]
    simp only [List.append_assoc, List.cons_append]
  · simp only [if_neg hcolon, hstart, hhost, Option.bind_some, Option.map_some]
    cases isPostgres url with
    | true => exact congrArg some hurl
    | false => rfl

theorem redactAuthority_eq (authority beyond : List Char)
    (hurl : url = start ++ (authority ++ beyond))
    (hauthority : authority = (authority ++ beyond).takeWhile (fun c => !endsAuthority c))
    (hbeyond : beyond = (authority ++ beyond).dropWhile (fun c => !endsAuthority c)) :
    redactAuthority url authority beyond (utf8Len start) =
      some (start ++ hideCredentials (isPostgres url) (authority ++ beyond)) := by
  unfold redactAuthority hideCredentials findLast
  rw [← hauthority, ← hbeyond]
  by_cases hat : '@' ∈ beyond
  · rw [if_pos hat, decide_eq_true hat]
    have hstart : sliceTo url (utf8Len start) = some start := by
      rw [hurl, sliceTo_append]
    have hguard : (if (true && decide (':' ∈ authority)) = true then
          (sliceTo url (utf8Len start)).map fun carrier => carrier ++ redacted else some url) =
        some (start ++ if ':' ∈ authority then redacted else authority ++ beyond) := by
      rw [hstart, Bool.true_and, hurl]
      by_cases hcolon : ':' ∈ authority <;> simp [hcolon]
    cases splitLast '@' authority with
    | none => exact hguard
    | some _ => exact hguard
  · rw [if_neg hat, decide_eq_false hat]
    cases hsplit : splitLast '@' authority with
    | none =>
      simp only [Option.map_none, Bool.false_and, Bool.false_eq_true, if_false, Option.elim_none]
      rw [hurl]
    | some r =>
      simp only [Option.map_some, Option.elim_some]
      have hsplits := (splitLast_spec hsplit).1
      rw [hsplits]
      apply redactUserinfo_eq
      rw [hurl, hsplits, List.append_assoc, List.cons_append]

theorem redactPassword_eq : redactPassword url = some (hidePassword url) := by
  unfold redactPassword hidePassword afterScheme findText
  cases hsplit : splitFirst separator url with
  | none => rfl
  | some r =>
    have hurl : url = (r.1 ++ separator) ++ r.2 := by
      rw [List.append_assoc]
      exact (splitFirst_spec hsplit).1
    simp only [Option.map_some, Option.elim_some]
    rw [← utf8Len_append]
    have hrest : sliceFrom url (utf8Len (r.1 ++ separator)) = some r.2 := by
      conv_lhs => rw [hurl]
      exact sliceFrom_append _ _
    have hsplits := List.takeWhile_append_dropWhile (p := fun c => !endsAuthority c) (l := r.2)
    have hauthority := sliceTo_append (r.2.takeWhile (fun c => !endsAuthority c))
      (r.2.dropWhile (fun c => !endsAuthority c))
    have hbeyond := sliceFrom_append (r.2.takeWhile (fun c => !endsAuthority c))
      (r.2.dropWhile (fun c => !endsAuthority c))
    rw [hsplits] at hauthority hbeyond
    rw [hrest, Option.bind_some, findWhere_getD, hauthority, Option.bind_some, hbeyond, Option.bind_some]
    have heq := redactAuthority_eq url (r.1 ++ separator)
      (r.2.takeWhile (fun c => !endsAuthority c)) (r.2.dropWhile (fun c => !endsAuthority c))
    rw [hsplits, List.append_assoc] at heq
    rw [← List.append_assoc]
    exact heq (hurl.trans (List.append_assoc _ _ _)) rfl rfl

theorem redactPathFrom_eq (before route : List Char) :
    redactPathFrom (before ++ route) (utf8Len before) = some (before ++ hideRoute route) := by
  have hsplits := List.takeWhile_append_dropWhile (p := fun c => !endsPath c) (l := route)
  have hend : (findWhere endsPath route).elim (utf8Len (before ++ route)) (utf8Len before + ·) =
      utf8Len before + utf8Len (route.takeWhile (fun c => !endsPath c)) := by
    rw [← findWhere_getD]
    cases findWhere endsPath route with
    | none => exact utf8Len_append before route
    | some _ => rfl
  have hpath := sliceText_append before (route.takeWhile (fun c => !endsPath c))
    (route.dropWhile (fun c => !endsPath c))
  have hafter := sliceFrom_append (before ++ route.takeWhile (fun c => !endsPath c))
    (route.dropWhile (fun c => !endsPath c))
  rw [hsplits] at hpath
  rw [List.append_assoc, hsplits, utf8Len_append] at hafter
  unfold redactPathFrom hideRoute
  rw [sliceFrom_append, Option.bind_some]
  simp only [hend, hpath, hafter, sliceTo_append, Option.bind_some, Option.map_some,
    trimMatches_isEmpty]
  split_ifs <;> rfl

theorem redactPath_eq : redactPath url = some (hidePath url) := by
  unfold redactPath hidePath afterScheme findText
  split_ifs with hpg
  · rfl
  · cases hsplit : splitFirst separator url with
    | none => rfl
    | some r =>
      have hurl : url = (r.1 ++ separator) ++ r.2 := by
        rw [List.append_assoc]
        exact (splitFirst_spec hsplit).1
      simp only [Option.map_some, Option.elim_some]
      have hrest : sliceFrom url (utf8Len (r.1 ++ separator)) = some r.2 := by
        conv_lhs => rw [hurl]
        exact sliceFrom_append _ _
      rw [← utf8Len_append, hrest, Option.bind_some, findWhere_char]
      have hsplits := List.takeWhile_append_dropWhile (p := fun c => !(c == '/')) (l := r.2)
      have hfrom := redactPathFrom_eq
        ((r.1 ++ separator) ++ r.2.takeWhile (fun c => !(c == '/')))
        (r.2.dropWhile (fun c => !(c == '/')))
      rw [List.append_assoc _ _ (r.2.dropWhile _), hsplits, ← hurl, utf8Len_append] at hfrom
      by_cases hslash : '/' ∈ r.2
      · simp only [if_pos hslash, hfrom, List.append_assoc]
      · have hdrop : r.2.dropWhile (fun c => !(c == '/')) = [] := by
          rw [List.dropWhile_eq_nil_iff]
          intro c hc
          simp only [Bool.not_eq_true', beq_eq_false_iff_ne]
          exact fun heq => hslash (heq ▸ hc)
        rw [hdrop, List.append_nil] at hsplits
        rw [if_neg hslash, hdrop, hsplits]
        change some url = some (r.1 ++ (separator ++ (r.2 ++ [])))
        rw [List.append_nil, ← List.append_assoc, ← hurl]

theorem redactAfter_eq (mark : Char) : redactAfter mark url = some (hideAfter mark url) := by
  unfold redactAfter hideAfter
  rw [findWhere_char]
  split_ifs
  · have hbefore := sliceTo_append (url.takeWhile (fun c => !(c == mark)))
      (url.dropWhile (fun c => !(c == mark)))
    rw [List.takeWhile_append_dropWhile] at hbefore
    simp only [hbefore, Option.map_some]
  · rfl

/-- Every offset `redact` slices at is a character boundary, and it makes of a URL what the
passes without offsets make of it. -/
theorem redact_eq : redact url = some (hide url) := by
  unfold redact hide redactQuery redactFragment
  rw [redactPassword_eq, Option.bind_some, redactPath_eq, Option.bind_some, redactAfter_eq,
    Option.bind_some, redactAfter_eq]

theorem secretPartsLoop_eq (chunks parts : List (List Char)) (placed rest : List Char)
    (hurl : url = placed ++ rest) :
    secretPartsLoop url chunks parts (utf8Len placed) =
      some ((gaps chunks rest).elim [url] (parts ++ ·)) := by
  induction chunks generalizing parts placed rest with
  | nil =>
    unfold secretPartsLoop gaps
    rw [hurl, sliceFrom_append, utf8Len_append]
    simp only [Nat.lt_add_right_iff_pos]
    split_ifs with hlen hrest hrest
    · exact absurd hrest (utf8Len_pos.mp hlen)
    · rfl
    · exact congrArg some (List.append_nil parts).symm
    · exact absurd (utf8Len_pos.mpr hrest) hlen
  | cons chunk chunks ih =>
    unfold secretPartsLoop gaps findText
    split_ifs with hchunk
    · exact ih parts placed rest hurl
    · have hrest : sliceFrom url (utf8Len placed) = some rest := by
        rw [hurl, sliceFrom_append]
      rw [hrest, Option.bind_some]
      cases hsplit : splitFirst chunk rest with
      | none => rfl
      | some r =>
        have hr := (splitFirst_spec hsplit).1
        have hplaced : url = (placed ++ (r.1 ++ chunk)) ++ r.2 := by
          rw [hurl, hr]
          simp only [List.append_assoc]
        have hpart : sliceText url (utf8Len placed) (utf8Len placed + utf8Len r.1) = some r.1 := by
          rw [hurl, hr, sliceText_append]
        simp only [Option.map_some, Option.bind_some, hpart, Nat.lt_add_right_iff_pos]
        have hcursor : utf8Len placed + utf8Len r.1 + utf8Len chunk =
            utf8Len (placed ++ (r.1 ++ chunk)) := by
          rw [utf8Len_append, utf8Len_append, Nat.add_assoc]
        rw [hcursor, ih _ _ _ hplaced, ih _ _ _ hplaced]
        split_ifs with hlen hnil hnil
        · exact absurd hnil (utf8Len_pos.mp hlen)
        · cases gaps chunks r.2 with
          | none => rfl
          | some left =>
            exact congrArg some (List.append_assoc parts [r.1] left)
        · cases gaps chunks r.2 <;> rfl
        · exact absurd (utf8Len_pos.mpr hnil) hlen

theorem secretParts_eq : secretParts url = some (hiddenParts url) := by
  unfold secretParts hiddenParts
  rw [redact_eq, Option.bind_some]
  have hloop := secretPartsLoop_eq url (pieces redacted (hide url)) [] [] url rfl
  rw [utf8Len_nil] at hloop
  rw [hloop]
  cases gaps (pieces redacted (hide url)) url <;> rfl

theorem scrub_eq (haystack : List Char) : scrub url haystack = some (scrubbed url haystack) := by
  unfold scrub scrubbed
  rw [redact_eq, Option.bind_some, secretParts_eq, Option.map_some]

end Offsets

end YogSothoth.Bootstrap
