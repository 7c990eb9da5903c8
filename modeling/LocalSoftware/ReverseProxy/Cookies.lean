import LocalSoftware.Common.HttpMessage
import LocalSoftware.ReverseProxy.ReverseProxyManager
import Mathlib.Data.List.Basic

/-!
# The token in a cookie header

`get_token` searches the header for `token=`. `getToken_header` says what it finds: the value of the
first cookie whose name ends in `token`. `returns_named_iff` says when this is the value of the first
cookie that is named `token`.
-/

set_option autoImplicit false

namespace LocalSoftware.ReverseProxy

open Http

/-- `get_token`, of a request: `at` throws when there is no cookie field. -/
def requestToken (req : Request) : Except Fault (Option Str) := do
  let cookieStr ← req.fields.at' Field.cookie
  return getToken cookieStr

/-- The name of the cookie with the token. -/
def tokenName : Str := "token".toList

/-- Text without the characters that separate cookies, or the name of a cookie from its value. -/
def Plain (text : Str) : Prop := ';' ∉ text ∧ '=' ∉ text ∧ ' ' ∉ text

instance (text : Str) : Decidable (Plain text) := inferInstanceAs (Decidable (_ ∧ _ ∧ _))

/-- A cookie. -/
structure Cookie where
  name : Str
  value : Str
  plain_name : Plain name
  plain_value : Plain value

namespace Cookie

/-- The cookie in a header. -/
def text (c : Cookie) : Str := c.name ++ '=' :: c.value

/-- The cookie is named `token`. -/
def isToken (c : Cookie) : Bool := c.name = tokenName

/-- The name of the cookie ends in `token`. -/
def endsInToken (c : Cookie) : Bool := tokenName.isSuffixOf c.name

/-- The name of the cookie ends in `token`, and is longer. -/
def merelyEnds (c : Cookie) : Bool := c.endsInToken && !c.isToken

end Cookie

/-- The `Cookie` header of some cookies. -/
def header (cookies : List Cookie) : Str := List.intercalate "; ".toList (cookies.map Cookie.text)

/-- The value of the first cookie named `token`. -/
def namedToken (cookies : List Cookie) : Option Str :=
  (cookies.find? Cookie.isToken).map Cookie.value

/-! ## The search for the name -/

section Search

variable {name value u rest : Str}

theorem takeWhile_name (rest : Str) (h : '=' ∉ name) :
    (name ++ '=' :: rest).takeWhile (fun c => c ≠ '=') = name := by
  have hname : ∀ c ∈ name, decide (c ≠ '=') = true := by
    intro c hc
    rw [decide_eq_true_eq]
    rintro rfl
    exact h hc
  rw [List.takeWhile_append_of_pos hname]
  exact List.append_nil name

/-- The pattern is found at a name only when the name is `token`. -/
theorem tokenPattern_prefix_iff (h : '=' ∉ name) :
    "token=".toList <+: name ++ '=' :: rest ↔ name = tokenName := by
  constructor
  · rintro ⟨tail, htail⟩
    have hsplit : tokenName ++ '=' :: tail = name ++ '=' :: rest := htail
    rw [← takeWhile_name rest h, ← hsplit]
    exact takeWhile_name tail (by decide)
  · intro htoken
    rw [htoken]
    exact ⟨rest, rfl⟩

/-- The pattern is not found in what stands in front of a separator. -/
theorem not_tokenPattern_prefix {x : Char} (hx : x ∉ "token=".toList) (h : '=' ∉ u) :
    ¬ "token=".toList <+: u ++ x :: rest := by
  intro hpre
  have hshort : u ++ [x] <+: u ++ x :: rest := ⟨rest, by simp⟩
  rcases List.prefix_or_prefix_of_prefix hpre hshort with hin | hin
  · have hmem : '=' ∈ u ++ [x] := hin.subset (by decide)
    rcases List.mem_append.1 hmem with hmem | hmem
    · exact h hmem
    · have hne : '=' ≠ x := by
        rintro rfl
        exact hx (by decide)
      exact hne (List.mem_singleton.1 hmem)
  · exact hx (hin.subset (by simp))

/-- A name that does not end in `token` is passed over, with its `=`. -/
theorem afterToken_name (h : '=' ∉ name) :
    afterToken (name ++ '=' :: rest) =
      if tokenName <:+ name then some rest else afterToken rest := by
  induction name with
  | nil =>
    have hnone : ¬ tokenName <:+ [] := by decide
    rw [if_neg hnone]
    rfl
  | cons c name ih =>
    have hname : '=' ∉ name := fun hmem => h (List.mem_cons_of_mem _ hmem)
    rw [List.cons_append, afterToken]
    by_cases htoken : c :: name = tokenName
    · have hpre : "token=".toList <+: c :: (name ++ '=' :: rest) :=
        (tokenPattern_prefix_iff h).2 htoken
      rw [if_pos (List.isPrefixOf_iff_prefix.2 hpre), if_pos (htoken ▸ List.suffix_rfl),
        ← List.cons_append, htoken]
      rfl
    · have hpre : ¬ "token=".toList <+: c :: (name ++ '=' :: rest) :=
        fun hpre => htoken ((tokenPattern_prefix_iff h).1 hpre)
      have hsuffix : tokenName <:+ c :: name ↔ tokenName <:+ name := by
        rw [List.suffix_cons_iff]
        exact or_iff_right fun heq => htoken heq.symm
      rw [if_neg fun hin => hpre (List.isPrefixOf_iff_prefix.1 hin), ih hname]
      simp only [hsuffix]

/-- Text in front of a separator is passed over. -/
theorem afterToken_separator {x : Char} (hx : x ∉ "token=".toList) (h : '=' ∉ u) :
    afterToken (u ++ x :: rest) = afterToken rest := by
  induction u with
  | nil =>
    rw [List.nil_append, afterToken, if_neg]
    intro hin
    exact not_tokenPattern_prefix hx h (List.isPrefixOf_iff_prefix.1 hin)
  | cons c u ih =>
    rw [List.cons_append, afterToken, if_neg]
    · exact ih fun hmem => h (List.mem_cons_of_mem _ hmem)
    · intro hin
      exact not_tokenPattern_prefix hx h (List.isPrefixOf_iff_prefix.1 hin)

/-- There is no token in text without `=`. -/
theorem afterToken_eq_none (h : '=' ∉ u) : afterToken u = none := by
  induction u with
  | nil => rfl
  | cons c u ih =>
    rw [afterToken, if_neg]
    · exact ih fun hmem => h (List.mem_cons_of_mem _ hmem)
    · intro hin
      exact h ((List.isPrefixOf_iff_prefix.1 hin).subset (by decide))

end Search

/-! ## What is found in a header -/

/-- What follows a cookie in a header: nothing, or a separator and other cookies. -/
def follow : List Cookie → Str
  | [] => []
  | c :: cookies => ';' :: ' ' :: header (c :: cookies)

theorem header_cons (c : Cookie) (cookies : List Cookie) :
    header (c :: cookies) = c.name ++ '=' :: (c.value ++ follow cookies) := by
  cases cookies with
  | nil => simp [header, follow, Cookie.text, List.intercalate]
  | cons d cookies => simp [header, follow, Cookie.text, List.intercalate]

theorem afterToken_follow {value : Str} (h : Plain value) (cookies : List Cookie) :
    afterToken (value ++ follow cookies) = afterToken (header cookies) := by
  cases cookies with
  | nil =>
    rw [follow, List.append_nil, afterToken_eq_none h.2.1]
    rfl
  | cons c cookies =>
    rw [follow, afterToken_separator (by decide) h.2.1]
    exact afterToken_separator (u := []) (by decide) List.not_mem_nil

theorem takeWhile_follow {value : Str} (h : Plain value) (cookies : List Cookie) :
    (value ++ follow cookies).takeWhile (fun c => c ≠ ';' ∧ c ≠ ' ') = value := by
  have hvalue : ∀ c ∈ value, decide (c ≠ ';' ∧ c ≠ ' ') = true := by
    intro c hc
    rw [decide_eq_true_eq]
    refine ⟨?_, ?_⟩
    · rintro rfl
      exact h.1 hc
    · rintro rfl
      exact h.2.2 hc
  rw [List.takeWhile_append_of_pos hvalue]
  cases cookies with
  | nil => exact List.append_nil value
  | cons c cookies => exact List.append_nil value

/-- The value of the first cookie whose name ends in `token`. -/
theorem getToken_header (cookies : List Cookie) :
    getToken (header cookies) = (cookies.find? Cookie.endsInToken).map Cookie.value := by
  induction cookies with
  | nil => rfl
  | cons c cookies ih =>
    rw [getToken, header_cons, afterToken_name c.plain_name.2.1]
    by_cases hends : c.endsInToken = true
    · have hsuffix : tokenName <:+ c.name := List.isSuffixOf_iff_suffix.1 hends
      rw [if_pos hsuffix, List.find?_cons_of_pos hends, Option.map_some, Option.map_some,
        takeWhile_follow c.plain_value]
    · have hsuffix : ¬ tokenName <:+ c.name := fun h => hends (List.isSuffixOf_iff_suffix.2 h)
      rw [if_neg hsuffix, List.find?_cons_of_neg hends, afterToken_follow c.plain_value]
      exact ih

/-! ## When the token is found -/

/-- Both forms of `get_token` answer so on the header of the cookies. -/
def Returns (cookies : List Cookie) (answer : Option Str) : Prop :=
  getToken (header cookies) = answer ∧
    ∀ req : Request, req.fields.find Field.cookie = some (header cookies) →
      requestToken req = .ok answer

/-- Both forms answer the same. -/
theorem returns_iff {cookies : List Cookie} {answer : Option Str} :
    Returns cookies answer ↔ getToken (header cookies) = answer := by
  constructor
  · intro h
    exact h.1
  · intro h
    refine ⟨h, fun req hreq => ?_⟩
    rw [requestToken, Fields.at'_eq_ok_iff.2 hreq, ← h]
    rfl

section Exact

variable {cookies : List Cookie}

theorem endsInToken_of_isToken {c : Cookie} (h : c.isToken = true) : c.endsInToken = true := by
  have hname : c.name = tokenName := of_decide_eq_true h
  rw [Cookie.endsInToken, hname]
  decide

/-- Without the cookies whose names merely end in `token`, the first one that ends in it is named so. -/
theorem find?_filter_merelyEnds :
    (cookies.filter fun c => !c.merelyEnds).find? Cookie.endsInToken =
      cookies.find? Cookie.isToken := by
  rw [List.find?_filter]
  congr 1
  funext c
  unfold Cookie.merelyEnds
  cases hends : c.endsInToken with
  | false =>
    cases htoken : c.isToken with
    | false => rfl
    | true => exact absurd (endsInToken_of_isToken htoken) (by simp [hends])
  | true => cases c.isToken <;> rfl

/-- When no name ends in `token`, none is `token`. -/
theorem find?_isToken_eq_none (h : cookies.find? Cookie.endsInToken = none) :
    cookies.find? Cookie.isToken = none := by
  rw [List.find?_eq_none] at h ⊢
  intro c hc htoken
  exact h c hc (endsInToken_of_isToken htoken)

/-- The first cookie whose name ends in `token` is the first one named so, if it is named so. -/
theorem find?_isToken_eq_some {c : Cookie} (h : cookies.find? Cookie.endsInToken = some c)
    (htoken : c.isToken = true) : cookies.find? Cookie.isToken = some c := by
  obtain ⟨-, before, after, hcookies, hbefore⟩ := List.find?_eq_some_iff_append.1 h
  refine List.find?_eq_some_iff_append.2 ⟨htoken, before, after, hcookies, ?_⟩
  intro d hd
  have hnot := hbefore d hd
  rw [Bool.not_eq_true', Bool.eq_false_iff] at hnot ⊢
  intro hdtoken
  exact hnot (endsInToken_of_isToken hdtoken)

/-- `get_token` answers with the value of the first cookie named `token`, whatever cookies merely end in
`token`, exactly when the first cookie that ends in `token` is named so, or has the same value. -/
theorem returns_named_iff (cookies : List Cookie) :
    (Returns cookies (namedToken cookies) ∧
      ∀ answer, Returns (cookies.filter fun c => !c.merelyEnds) answer ↔ Returns cookies answer) ↔
    ∀ c, cookies.find? Cookie.endsInToken = some c → c.merelyEnds = true →
      namedToken cookies = some c.value := by
  have hfilter : getToken (header (cookies.filter fun c => !c.merelyEnds)) = namedToken cookies := by
    rw [getToken_header, find?_filter_merelyEnds]
    rfl
  simp only [returns_iff, hfilter, getToken_header]
  constructor
  · rintro ⟨hnamed, -⟩ c hfind -
    rw [← hnamed, hfind]
    rfl
  · intro hfirst
    have hsame : (cookies.find? Cookie.endsInToken).map Cookie.value = namedToken cookies := by
      cases hfind : cookies.find? Cookie.endsInToken with
      | none => rw [namedToken, find?_isToken_eq_none hfind]
      | some c =>
        by_cases htoken : c.isToken = true
        · rw [namedToken, find?_isToken_eq_some hfind htoken]
        · -- the name merely ends in `token`: the value must be the right one
          have hends := List.find?_some hfind
          refine (hfirst c hfind ?_).symm
          rw [Cookie.merelyEnds, hends]
          simpa using htoken
    exact ⟨hsame, fun answer => by rw [hsame]⟩

end Exact

/-- `xtoken=a; token=b`. -/
def suffixedCookies : List Cookie :=
  [⟨"xtoken".toList, "a".toList, by decide, by decide⟩,
    ⟨"token".toList, "b".toList, by decide, by decide⟩]

/-- The value of the other cookie is taken for the token. -/
theorem suffixedCookies_wrong :
    header suffixedCookies = "xtoken=a; token=b".toList ∧
      getToken (header suffixedCookies) = some "a".toList ∧
      namedToken suffixedCookies = some "b".toList ∧
      ¬ ∀ cookies : List Cookie, Returns cookies (namedToken cookies) ∧
        ∀ answer, Returns (cookies.filter fun c => !c.merelyEnds) answer ↔ Returns cookies answer := by
  have hwrong : getToken (header suffixedCookies) = some "a".toList := by decide
  have hnamed : namedToken suffixedCookies = some "b".toList := by decide
  refine ⟨by decide, hwrong, hnamed, fun hall => ?_⟩
  have hright := (hall suffixedCookies).1.1
  rw [hwrong, hnamed] at hright
  exact absurd hright (by decide)

end LocalSoftware.ReverseProxy
