import YogSothoth.Bootstrap.Hidden

namespace YogSothoth.Bootstrap

/-- The passes over the query and the fragment. -/
def hideMarks (url : List Char) : List Char := hideAfter '#' (hideAfter '?' url)

/-- What the passes over the path, the query and the fragment make of the text after an authority. -/
def hideTail (tail : List Char) : List Char :=
  hideMarks (tail.takeWhile (fun c => !(c == '/')) ++
    hideRoute (tail.dropWhile (fun c => !(c == '/'))))

/-- An authority, and the same with its password, or its userinfo without one, replaced. -/
inductive Masked : List Char → List Char → Prop
  | host (authority : List Char) (hat : '@' ∉ authority) : Masked authority authority
  | password (user password host : List Char) (huser : ':' ∉ user) (hhost : '@' ∉ host) :
      Masked (user ++ ':' :: (password ++ '@' :: host)) (user ++ ':' :: (redacted ++ '@' :: host))
  | token (userinfo host : List Char) (huserinfo : ':' ∉ userinfo) (hhost : '@' ∉ host) :
      Masked (userinfo ++ '@' :: host) (redacted ++ '@' :: host)

/-- A text of delimiters and placeholders only. -/
inductive Blank : List Char → Prop
  | nil : Blank []
  | delimiter (c : Char) (s : List Char) (hc : endsAuthority c = true) (h : Blank s) : Blank (c :: s)
  | placeholder (s : List Char) (h : Blank s) : Blank (redacted ++ s)

/-- Characters that all fail a test, by running it. -/
theorem forall_false_of_all {p : Char → Bool} {s : List Char} (h : s.all (fun c => !p c) = true) :
    ∀ c ∈ s, p c = false := by
  intro c hc
  have hfails := List.all_eq_true.mp h c hc
  rw [Bool.not_eq_true'] at hfails
  exact hfails

section Passes

variable {scheme : List Char}

theorem splitFirst_separator (hscheme : ¬ separator <:+: scheme) (rest : List Char) :
    splitFirst separator (scheme ++ (separator ++ rest)) = some (scheme, rest) :=
  splitFirst_head (by decide) hscheme

theorem afterScheme_eq (hscheme : ¬ separator <:+: scheme) (change : List Char → List Char)
    (rest : List Char) :
    afterScheme change (scheme ++ (separator ++ rest)) = scheme ++ (separator ++ change rest) := by
  unfold afterScheme
  rw [splitFirst_separator hscheme]
  rfl

theorem separator_isPrefixOf (hscheme : ¬ separator <:+: scheme) {name : List Char}
    (hname : ¬ separator <:+: name) (rest : List Char) :
    (name ++ separator).isPrefixOf (scheme ++ (separator ++ rest)) = true ↔ scheme = name := by
  rw [List.isPrefixOf_iff_prefix]
  constructor
  · intro h
    obtain ⟨after, hafter⟩ := h
    rw [List.append_assoc] at hafter
    have hsplit := splitFirst_separator hname after
    rw [hafter, splitFirst_separator hscheme] at hsplit
    exact (Prod.mk.inj (Option.some.inj hsplit)).1
  · intro h
    rw [h, ← List.append_assoc]
    exact List.prefix_append _ _

theorem isPostgres_iff (hscheme : ¬ separator <:+: scheme) (rest : List Char) :
    isPostgres (scheme ++ (separator ++ rest)) = true ↔
      scheme = postgres ∨ scheme = postgresql := by
  unfold isPostgres
  rw [Bool.or_eq_true, separator_isPrefixOf hscheme (by decide),
    separator_isPrefixOf hscheme (by decide)]

/-- What follows the scheme does not tell whether a URL is a Postgres one. -/
theorem isPostgres_congr (hscheme : ¬ separator <:+: scheme) (rest other : List Char) :
    isPostgres (scheme ++ (separator ++ rest)) = isPostgres (scheme ++ (separator ++ other)) := by
  rw [Bool.eq_iff_iff, isPostgres_iff hscheme, isPostgres_iff hscheme]

theorem hideAfter_append {mark : Char} {before : List Char} (h : mark ∉ before) (s : List Char) :
    hideAfter mark (before ++ s) = before ++ hideAfter mark s := by
  have htake : (before ++ s).takeWhile (fun c => !(c == mark)) =
      before ++ s.takeWhile (fun c => !(c == mark)) := by
    apply List.takeWhile_append_of_pos
    intro c hc
    simp only [Bool.not_eq_true', beq_eq_false_iff_ne]
    exact fun heq => h (heq ▸ hc)
  unfold hideAfter
  rw [htake]
  by_cases hs : mark ∈ s
  · rw [if_pos (List.mem_append_right before hs), if_pos hs, List.append_assoc]
  · rw [if_neg hs, if_neg]
    rw [List.mem_append]
    exact fun hmem => hmem.elim h hs

theorem hideAfter_self (mark : Char) (s : List Char) :
    hideAfter mark (mark :: s) = mark :: redacted := by
  unfold hideAfter
  rw [if_pos List.mem_cons_self, List.takeWhile_cons_of_neg (by simp), List.nil_append]

theorem hideAfter_of_notMem {mark : Char} {s : List Char} (h : mark ∉ s) :
    hideAfter mark s = s := if_neg h

theorem hideMarks_append {before : List Char} (h : ∀ c ∈ before, endsPath c = false)
    (s : List Char) : hideMarks (before ++ s) = before ++ hideMarks s := by
  have hquery : '?' ∉ before := fun hc => absurd (h _ hc) (by decide)
  have hfragment : '#' ∉ before := fun hc => absurd (h _ hc) (by decide)
  unfold hideMarks
  rw [hideAfter_append hquery, hideAfter_append hfragment]

/-- Everything after the first mark is lost, whatever it holds. -/
theorem hideMarks_mark {mark : Char} (hmark : endsPath mark = true) (s : List Char) :
    hideMarks (mark :: s) = mark :: redacted := by
  unfold hideMarks
  by_cases hquery : mark = '?'
  · rw [hquery, hideAfter_self, hideAfter_of_notMem (by decide)]
  · have hfragment : mark = '#' := by
      unfold endsPath at hmark
      rw [Bool.or_eq_true, beq_iff_eq, beq_iff_eq] at hmark
      exact hmark.resolve_left hquery
    rw [hfragment, ← List.singleton_append, hideAfter_append (by decide), List.singleton_append,
      hideAfter_self]

theorem blank_append_of_slashes {path : List Char} (hpath : path.all (· == '/') = true)
    {s : List Char} (h : Blank s) : Blank (path ++ s) := by
  induction path with
  | nil => exact h
  | cons c path ih =>
    rw [List.all_cons, Bool.and_eq_true, beq_iff_eq] at hpath
    refine .delimiter c _ ?_ (ih hpath.2)
    rw [hpath.1]
    rfl

theorem blank_redacted : Blank redacted := List.append_nil redacted ▸ .placeholder [] .nil

theorem blank_mark {mark : Char} (hmark : endsPath mark = true) (s : List Char) :
    Blank (hideMarks (mark :: s)) := by
  rw [hideMarks_mark hmark]
  refine .delimiter mark _ ?_ blank_redacted
  unfold endsPath at hmark
  unfold endsAuthority
  rw [Bool.or_assoc, hmark, Bool.or_true]

theorem blank_beyondPath (route : List Char) :
    Blank (hideMarks (route.dropWhile (fun c => !endsPath c))) := by
  cases hdrop : route.dropWhile (fun c => !endsPath c) with
  | nil => exact .nil
  | cons c s =>
    apply blank_mark
    have hne : route.dropWhile (fun c => !endsPath c) ≠ [] := by
      rw [hdrop]
      exact List.cons_ne_nil c s
    have hhead := List.head_dropWhile_not (fun c => !endsPath c) hne
    simp only [hdrop, List.head_cons, Bool.not_eq_false'] at hhead
    exact hhead

theorem blank_route (route : List Char) : Blank (hideMarks (hideRoute route)) := by
  unfold hideRoute
  split_ifs with hslashes
  · have hfree : ∀ c ∈ route.takeWhile (fun c => !endsPath c), endsPath c = false := by
      intro c hc
      rw [beq_iff_eq.mp (List.all_eq_true.mp hslashes c hc)]
      rfl
    have heq := hideMarks_append hfree (route.dropWhile (fun c => !endsPath c))
    rw [List.takeWhile_append_dropWhile] at heq
    rw [heq]
    exact blank_append_of_slashes hslashes (blank_beyondPath route)
  · have hfree : ∀ c ∈ '/' :: redacted, endsPath c = false := forall_false_of_all rfl
    rw [← List.cons_append, hideMarks_append hfree, List.cons_append]
    exact .delimiter '/' _ rfl (.placeholder _ (blank_beyondPath route))

/-- A tail that opens with a delimiter leaves delimiters and placeholders only. -/
theorem blank_hideTail {tail : List Char}
    (htail : ∀ c, tail.head? = some c → endsAuthority c = true) : Blank (hideTail tail) := by
  unfold hideTail
  cases tail with
  | nil => exact .nil
  | cons c t =>
    by_cases hslash : c = '/'
    · rw [hslash, List.takeWhile_cons_of_neg (by decide), List.dropWhile_cons_of_neg (by decide),
        List.nil_append]
      exact blank_route _
    · have hmark : endsPath c = true := by
        have hc := htail c rfl
        unfold endsAuthority at hc
        rw [beq_eq_false_iff_ne.mpr hslash, Bool.false_or] at hc
        exact hc
      rw [List.takeWhile_cons_of_pos (by simp [hslash]), List.cons_append]
      exact blank_mark hmark _

end Passes

section Authority

variable {authority tail : List Char}

theorem endsPath_of_not_endsAuthority {c : Char} (h : endsAuthority c = false) :
    endsPath c = false ∧ c ≠ '/' := by
  unfold endsAuthority at h
  unfold endsPath
  rw [Bool.or_assoc, Bool.or_eq_false_iff] at h
  exact ⟨h.2, beq_eq_false_iff_ne.mp h.1⟩

theorem takeWhile_authority (hauthority : ∀ c ∈ authority, endsAuthority c = false)
    (htail : ∀ c, tail.head? = some c → endsAuthority c = true) :
    (authority ++ tail).takeWhile (fun c => !endsAuthority c) = authority ∧
      (authority ++ tail).dropWhile (fun c => !endsAuthority c) = tail := by
  have hpos : ∀ c ∈ authority, (!endsAuthority c) = true := by
    intro c hc
    rw [hauthority c hc]
    rfl
  rw [List.takeWhile_append_of_pos hpos, List.dropWhile_append_of_pos hpos]
  cases tail with
  | nil => exact ⟨List.append_nil authority, rfl⟩
  | cons c t =>
    simp [htail c rfl]

theorem Masked.free {shown : List Char} (h : Masked authority shown)
    (hauthority : ∀ c ∈ authority, endsAuthority c = false) :
    ∀ c ∈ shown, endsAuthority c = false := by
  have hredacted : ∀ c ∈ redacted, endsAuthority c = false := forall_false_of_all rfl
  cases h with
  | host _ _ => exact hauthority
  | password user password host _ _ => grind
  | token userinfo host _ _ => grind

/-- What stands on both sides of the first occurrence of a character. -/
theorem exists_first {c : Char} {s : List Char} (hc : c ∈ s) :
    ∃ after, c ∉ s.takeWhile (fun d => !(d == c)) ∧
      s = s.takeWhile (fun d => !(d == c)) ++ c :: after := by
  obtain ⟨before, after, hs, hbefore⟩ := List.eq_append_cons_of_mem hc
  have htake : s.takeWhile (fun d => !(d == c)) = before := by
    rw [hs, List.takeWhile_append_of_pos, List.takeWhile_cons_of_neg (by simp), List.append_nil]
    intro d hd
    simp only [Bool.not_eq_true', beq_eq_false_iff_ne]
    exact fun heq => hbefore (heq ▸ hd)
  rw [htake]
  exact ⟨after, hbefore, hs⟩

theorem masked_userinfo (userinfo : List Char) {host : List Char} (hhost : '@' ∉ host) :
    Masked (userinfo ++ '@' :: host) (hideUserinfo false userinfo ++ '@' :: host) := by
  unfold hideUserinfo
  by_cases hcolon : ':' ∈ userinfo
  · obtain ⟨password, huser, hsplit⟩ := exists_first hcolon
    have hmasked := Masked.password _ password host huser hhost
    rw [← List.cons_append, ← List.append_assoc, ← hsplit] at hmasked
    rw [if_pos hcolon, List.append_assoc, List.cons_append]
    exact hmasked
  · rw [if_neg hcolon]
    exact .token userinfo host hcolon hhost

/-- Outside Postgres, what follows the scheme is masked, or gone. -/
theorem hideCredentials_masked (hauthority : ∀ c ∈ authority, endsAuthority c = false)
    (htail : ∀ c, tail.head? = some c → endsAuthority c = true)
    (hambiguous : ':' ∈ authority ∨ '@' ∉ tail) :
    hideCredentials false (authority ++ tail) = redacted ∨
      ∃ shown, Masked authority shown ∧
        hideCredentials false (authority ++ tail) = shown ++ tail := by
  obtain ⟨htake, hdrop⟩ := takeWhile_authority hauthority htail
  unfold hideCredentials
  rw [htake, hdrop]
  by_cases hat : '@' ∈ tail
  · rw [if_pos hat, if_pos (hambiguous.resolve_right (not_not_intro hat))]
    exact Or.inl rfl
  · rw [if_neg hat]
    right
    cases hsplit : splitLast '@' authority with
    | none => exact ⟨authority, .host authority (splitLast_none.mp hsplit), rfl⟩
    | some r =>
      obtain ⟨hr, hhost⟩ := splitLast_spec hsplit
      refine ⟨hideUserinfo false r.1 ++ '@' :: r.2, ?_, ?_⟩
      · rw [hr]
        exact masked_userinfo r.1 hhost
      · rw [Option.elim_some, List.append_assoc, List.cons_append]

/-- The password is replaced, or everything after the scheme is: no delimiter in it matters. -/
theorem hideCredentials_password (keeps : Bool) {user : List Char}
    (huser : ∀ c ∈ user, endsAuthority c = false ∧ c ≠ ':' ∧ c ≠ '@')
    (htail : '@' ∉ tail.takeWhile (fun c => !endsAuthority c)) (password : List Char) :
    hideCredentials keeps (user ++ ':' :: (password ++ '@' :: tail)) =
      if password.any endsAuthority = true ∨ '@' ∈ tail.dropWhile (fun c => !endsAuthority c) then
        redacted
      else user ++ ':' :: (redacted ++ '@' :: tail) := by
  have hprefix : ∀ c ∈ user ++ [':'], (!endsAuthority c) = true := by
    intro c hc
    obtain hc | hc := List.mem_append.mp hc
    · rw [(huser c hc).1]
      rfl
    · rw [List.mem_singleton.mp hc]
      rfl
  have hcons : user ++ ':' :: (password ++ '@' :: tail) =
      (user ++ [':']) ++ (password ++ '@' :: tail) := by
    rw [List.append_assoc, List.singleton_append]
  have hcolon : ∀ s : List Char, ':' ∈ (user ++ [':']) ++ s := by
    intro s
    simp
  unfold hideCredentials
  rw [hcons, List.takeWhile_append_of_pos hprefix, List.dropWhile_append_of_pos hprefix]
  cases hends : password.any endsAuthority with
  | false =>
    have hpassword : ∀ c ∈ password ++ ['@'], (!endsAuthority c) = true := by
      intro c hc
      obtain hc | hc := List.mem_append.mp hc
      · rw [Bool.eq_false_iff.mpr (List.any_eq_false.mp hends c hc)]
        rfl
      · rw [List.mem_singleton.mp hc]
        rfl
    rw [List.append_cons password, List.takeWhile_append_of_pos hpassword,
      List.dropWhile_append_of_pos hpassword]
    by_cases hat : '@' ∈ tail.dropWhile (fun c => !endsAuthority c)
    · rw [if_pos hat, if_pos (hcolon _), if_pos (Or.inr hat)]
    · rw [if_neg hat, if_neg (fun h => h.elim Bool.false_ne_true hat)]
      have hsplit : (user ++ [':']) ++
          (password ++ ['@'] ++ tail.takeWhile (fun c => !endsAuthority c)) =
          (user ++ [':'] ++ password) ++ '@' :: tail.takeWhile (fun c => !endsAuthority c) := by
        simp only [List.append_assoc, List.cons_append, List.nil_append]
      have hrole : (user ++ [':'] ++ password).takeWhile (fun c => !(c == ':')) = user := by
        rw [List.append_assoc, List.takeWhile_append_of_pos]
        · simp
        · intro c hc
          simp only [Bool.not_eq_true', beq_eq_false_iff_ne]
          exact (huser c hc).2.1
      rw [hsplit, splitLast_eq htail, Option.elim_some]
      unfold hideUserinfo
      rw [if_pos (hcolon password), hrole, List.takeWhile_append_dropWhile, List.append_assoc,
        List.cons_append]
  | true =>
    obtain ⟨c, hc, hc'⟩ := List.any_eq_true.mp hends
    have hdrop : '@' ∈ (password ++ '@' :: tail).dropWhile (fun c => !endsAuthority c) := by
      rw [List.dropWhile_append, if_neg]
      · exact List.mem_append_right _ List.mem_cons_self
      · rw [List.isEmpty_iff, List.dropWhile_eq_nil_iff]
        intro hall
        have hstays := hall c hc
        rw [hc'] at hstays
        cases hstays
    rw [if_pos hdrop, if_pos (hcolon _), if_pos (Or.inl rfl)]

end Authority

section Redact

variable {scheme : List Char}

theorem hidePath_eq (hscheme : ¬ separator <:+: scheme) {shown : List Char}
    (hshown : ∀ c ∈ shown, endsAuthority c = false) (tail : List Char)
    (hpg : isPostgres (scheme ++ (separator ++ (shown ++ tail))) = false) :
    hidePath (scheme ++ (separator ++ (shown ++ tail))) =
      scheme ++ (separator ++ (shown ++ (tail.takeWhile (fun c => !(c == '/')) ++
        hideRoute (tail.dropWhile (fun c => !(c == '/')))))) := by
  have hpos : ∀ c ∈ shown, (!(c == '/')) = true := by
    intro c hc
    simp only [Bool.not_eq_true', beq_eq_false_iff_ne]
    exact (endsPath_of_not_endsAuthority (hshown c hc)).2
  unfold hidePath
  rw [hpg, if_neg Bool.false_ne_true, afterScheme_eq hscheme, List.takeWhile_append_of_pos hpos,
    List.dropWhile_append_of_pos hpos, List.append_assoc]

theorem hideMarks_url (hmarks : ∀ c ∈ scheme, endsPath c = false) {shown : List Char}
    (hshown : ∀ c ∈ shown, endsAuthority c = false) (s : List Char) :
    hideMarks (scheme ++ (separator ++ (shown ++ s))) =
      scheme ++ (separator ++ (shown ++ hideMarks s)) := by
  have hseparator : ∀ c ∈ separator, endsPath c = false := forall_false_of_all rfl
  rw [hideMarks_append hmarks, hideMarks_append hseparator,
    hideMarks_append fun c hc => (endsPath_of_not_endsAuthority (hshown c hc)).1]

/-- A scheme with a mark in it is cut at the first one. -/
theorem hide_markedScheme {before after : List Char} {mark : Char}
    (hscheme : ¬ separator <:+: before ++ mark :: after) (hbefore : ∀ c ∈ before, endsPath c = false)
    (hmark : endsPath mark = true) (rest : List Char) :
    hide ((before ++ mark :: after) ++ (separator ++ rest)) = before ++ mark :: redacted := by
  have hcut : ∀ s, hideMarks ((before ++ mark :: after) ++ s) = before ++ mark :: redacted := by
    intro s
    rw [List.append_assoc, List.cons_append, hideMarks_append hbefore, hideMarks_mark hmark]
  have hpath : ∃ s, hidePath (hidePassword ((before ++ mark :: after) ++ (separator ++ rest))) =
      (before ++ mark :: after) ++ s := by
    unfold hidePassword hidePath
    rw [afterScheme_eq hscheme]
    split_ifs
    · exact ⟨_, rfl⟩
    · rw [afterScheme_eq hscheme]
      exact ⟨_, rfl⟩
  obtain ⟨s, hs⟩ := hpath
  unfold hide
  rw [hs]
  exact hcut s

/-- Outside Postgres, nothing of a path, a query or a fragment is left. -/
theorem hide_shape (hscheme : ¬ separator <:+: scheme) (hmarks : ∀ c ∈ scheme, endsPath c = false)
    {authority tail : List Char} (hauthority : ∀ c ∈ authority, endsAuthority c = false)
    (htail : ∀ c, tail.head? = some c → endsAuthority c = true)
    (hpg : isPostgres (scheme ++ (separator ++ (authority ++ tail))) = false)
    (hambiguous : ':' ∈ authority ∨ '@' ∉ tail) :
    ∃ shown suffix, hide (scheme ++ (separator ++ (authority ++ tail))) =
        scheme ++ (separator ++ (shown ++ suffix)) ∧
      (shown = redacted ∧ suffix = [] ∨ Masked authority shown ∧ Blank suffix) := by
  have hkeeps := fun rest => (isPostgres_congr hscheme rest (authority ++ tail)).trans hpg
  have hpassword : hidePassword (scheme ++ (separator ++ (authority ++ tail))) =
      scheme ++ (separator ++ hideCredentials false (authority ++ tail)) := by
    unfold hidePassword
    rw [hpg, afterScheme_eq hscheme]
  obtain hgone | ⟨shown, hmasked, heq⟩ := hideCredentials_masked hauthority htail hambiguous
  · have hfree : ∀ c ∈ redacted, endsAuthority c = false := forall_false_of_all rfl
    refine ⟨redacted, [], ?_, Or.inl ⟨rfl, rfl⟩⟩
    unfold hide
    rw [hpassword, hgone, ← List.append_nil redacted, hidePath_eq hscheme hfree [] (hkeeps _)]
    exact hideMarks_url hmarks hfree _
  · refine ⟨shown, hideTail tail, ?_, Or.inr ⟨hmasked, blank_hideTail htail⟩⟩
    have hfree := hmasked.free hauthority
    unfold hide
    rw [hpassword, heq, hidePath_eq hscheme hfree tail (hkeeps _)]
    exact hideMarks_url hmarks hfree _

end Redact

theorem redact_hides :
    (∀ scheme user tail : List Char, ¬ separator <:+: scheme →
      (∀ c ∈ user, endsAuthority c = false ∧ c ≠ ':' ∧ c ≠ '@') →
      '@' ∉ tail.takeWhile (fun c => !endsAuthority c) →
      ∃ s₁ s₂, ∀ password : List Char,
        redact (scheme ++ (separator ++ (user ++ ':' :: (password ++ '@' :: tail)))) = some s₁ ∨
        redact (scheme ++ (separator ++ (user ++ ':' :: (password ++ '@' :: tail)))) = some s₂) ∧
    (∀ scheme authority tail : List Char, ¬ separator <:+: scheme →
      (∀ c ∈ authority, endsAuthority c = false) →
      (∀ c, tail.head? = some c → endsAuthority c = true) →
      isPostgres (scheme ++ (separator ++ (authority ++ tail))) = false →
      ':' ∈ authority ∨ '@' ∉ tail →
      ((∀ c ∈ scheme, endsPath c = false) →
        ∃ shown suffix, redact (scheme ++ (separator ++ (authority ++ tail))) =
            some (scheme ++ (separator ++ (shown ++ suffix))) ∧
          (shown = redacted ∧ suffix = [] ∨ Masked authority shown ∧ Blank suffix)) ∧
      ∀ (before after : List Char) (mark : Char), scheme = before ++ mark :: after →
        (∀ c ∈ before, endsPath c = false) → endsPath mark = true →
        redact (scheme ++ (separator ++ (authority ++ tail))) =
          some (before ++ mark :: redacted)) := by
  constructor
  · intro scheme user tail hscheme huser htail
    refine ⟨hideMarks (hidePath (scheme ++ (separator ++ (user ++ ':' :: (redacted ++ '@' :: tail))))),
      hideMarks (hidePath (scheme ++ (separator ++ redacted))), ?_⟩
    intro password
    rw [redact_eq]
    unfold hide hidePassword
    rw [afterScheme_eq hscheme, hideCredentials_password _ huser htail]
    split_ifs
    · exact Or.inr rfl
    · exact Or.inl rfl
  · intro scheme authority tail hscheme hauthority htail hpg hambiguous
    rw [redact_eq]
    constructor
    · intro hmarks
      obtain ⟨shown, suffix, heq, hshape⟩ :=
        hide_shape hscheme hmarks hauthority htail hpg hambiguous
      exact ⟨shown, suffix, congrArg some heq, hshape⟩
    · intro before after mark hsplit hbefore hmark
      rw [hsplit] at hscheme
      rw [hsplit, hide_markedScheme hscheme hbefore hmark]

/-- `https://u:p@h/k`: both parts at one URL. -/
theorem redact_hides_https :
    (∃ s₁ s₂, ∀ password : List Char,
      redact (['h', 't', 't', 'p', 's'] ++
        (separator ++ (['u'] ++ ':' :: (password ++ '@' :: ['h', '/', 'k'])))) = some s₁ ∨
      redact (['h', 't', 't', 'p', 's'] ++
        (separator ++ (['u'] ++ ':' :: (password ++ '@' :: ['h', '/', 'k'])))) = some s₂) ∧
    (∃ shown suffix, redact (['h', 't', 't', 'p', 's'] ++
        (separator ++ (['u', ':', 'p', '@', 'h'] ++ ['/', 'k']))) =
          some (['h', 't', 't', 'p', 's'] ++ (separator ++ (shown ++ suffix))) ∧
        (shown = redacted ∧ suffix = [] ∨
          Masked ['u', ':', 'p', '@', 'h'] shown ∧ Blank suffix)) ∧
    redact (['a', '?', 'b'] ++ (separator ++ (['h'] ++ []))) = some (['a'] ++ '?' :: redacted) :=
  ⟨redact_hides.1 _ _ _ (by decide) (by simp [endsAuthority]) (by decide),
    (redact_hides.2 _ _ _ (by decide) (by simp [endsAuthority]) (by simp [endsAuthority])
      (by decide) (by decide)).1 (by simp [endsPath]),
    (redact_hides.2 ['a', '?', 'b'] ['h'] [] (by decide) (by simp [endsAuthority]) (by simp)
      (by decide) (by decide)).2 ['a'] ['b'] '?' rfl (by simp [endsPath]) (by decide)⟩

/-- `a?b://h` loses its scheme: the query pass looks for its mark from the start of the URL. -/
theorem redact_marked_scheme :
    ¬ separator <:+: ['a', '?', 'b'] ∧
    isPostgres (['a', '?', 'b'] ++ (separator ++ (['h'] ++ []))) = false ∧
    ¬ ∃ shown suffix, redact (['a', '?', 'b'] ++ (separator ++ (['h'] ++ []))) =
      some (['a', '?', 'b'] ++ (separator ++ (shown ++ suffix))) := by
  refine ⟨by decide, by decide, ?_⟩
  intro hshape
  obtain ⟨shown, suffix, heq⟩ := hshape
  have hcut : redact (['a', '?', 'b'] ++ (separator ++ (['h'] ++ []))) =
      some (['a', '?'] ++ redacted) := by decide
  rw [hcut] at heq
  cases heq

end YogSothoth.Bootstrap
