import Colloquy.Package
import Colloquy.Proofs.Cutting
import Colloquy.Proofs.LowerCase
import Colloquy.Proofs.Remarks
import Mathlib.Data.List.Forall2

/-! What the package requires.  A token is put in front of the site wherever a requirement names it,
and can be taken out again unless the requirement ends, in front of a site, in a token and a part of
the site that the token goes on with. -/

namespace Colloquy.Package

open Text

variable {c : Char} {cs ds word : List Char} {token a line text : String}

/-! ### Taking tokens out -/

def marked (token : String) : String := token ++ "@github.com"

def undone (token entry : String) : String := replace (marked token) "github.com" entry

/-- A text that ends in the token and a first part of the site, with whose rest the token begins. -/
def Overlaps (token piece : String) : Prop :=
  ∃ v t, v ++ t = "github.com".toList ∧ t <+: token.toList ∧
    token.toList ++ '@' :: v <:+ piece.toList

section

variable {site token piece word rest : List Char}

theorem exists_overlap (hat : '@' ∉ site) (htoken : ¬ site <:+: token)
    (hpiece : ¬ site <:+: piece) (hword : word ≠ []) (hend : word <:+ piece)
    (hstart : token ++ '@' :: site <+: word ++ (token ++ '@' :: site) ++ rest) :
    ∃ v t, v ++ t = site ∧ t <+: token ∧ token ++ '@' :: v <:+ piece := by
  obtain ⟨tail, htail⟩ := hstart
  -- A site behind an `@` of the token would have to be a part of it.
  have hinner {m : List Char} (hm : m ≠ []) (hin : m <:+ token)
      (h : '@' :: (site ++ tail) = m ++ '@' :: (site ++ rest)) : False := by
    obtain ⟨x, q, rfl⟩ := List.exists_cons_of_ne_nil hm
    obtain ⟨rfl, hq⟩ := List.cons.inj h
    have hsite : site <+: q := (prefix_append_cons_iff hat).1 ⟨tail, hq⟩
    exact htoken (hsite.isInfix.trans ((List.suffix_cons '@' q).trans hin).isInfix)
  have heq : token ++ '@' :: (site ++ tail) = word ++ (token ++ '@' :: (site ++ rest)) := by
    simpa using htail
  rcases List.append_eq_append_iff.1 heq with ⟨v, rfl, hv⟩ | ⟨more, hmore, hrest⟩
  · cases v with
    | nil => exact (hinner (by simpa using hword) (List.suffix_refl _) hv).elim
    | cons x v =>
      obtain ⟨rfl, hsite⟩ := List.cons.inj hv
      rcases List.append_eq_append_iff.1 hsite with ⟨w, rfl, -⟩ | ⟨t, rfl, ht⟩
      · refine (hpiece ?_).elim
        exact List.IsInfix.trans ⟨token ++ ['@'], w, by simp⟩ hend.isInfix
      · refine ⟨v, t, rfl, ?_, hend⟩
        have hsub : '@' ∉ t := fun h => hat (List.mem_append_right v h)
        exact (prefix_append_cons_iff hsub).1 ⟨tail, ht.symm⟩
  · have hlength := congrArg List.length hmore
    rcases List.append_eq_append_iff.1 hrest with ⟨w, rfl, -⟩ | ⟨m, hm, hsite⟩
    · simp only [List.length_append] at hlength
      exact (hword (List.eq_nil_of_length_eq_zero (by omega))).elim
    · refine (hinner ?_ ⟨more, hm.symm⟩ hsite).elim
      rintro rfl
      rw [List.append_nil] at hm
      simp_all

end

theorem toList_marked (token : String) :
    (marked token).toList = token.toList ++ '@' :: "github.com".toList := by
  rw [marked, String.toList_append]
  rfl

theorem undone_eq_self {s : String} (h : contains s "github.com" = false) : undone token s = s := by
  refine replace_of_contains_eq_false _ (by simp [marked]) ?_
  rw [contains_eq_false_iff] at h ⊢
  exact fun hin => h (.trans ⟨token.toList ++ ['@'], [], by simp [toList_marked]⟩ hin)

theorem cut?_marked (htoken : contains token "github.com" = false)
    (ha : contains a "github.com" = false) (h : ¬ Overlaps token a) (rest : String) :
    cut? (marked token) (a ++ marked token ++ rest) = some (a, rest) := by
  rw [contains_eq_false_iff] at htoken ha
  rw [cut?, String.toList_append, String.toList_append, toList_marked,
    cutChars?_of_first (by simp) fun x more hend hprefix =>
      h (exists_overlap (by decide) htoken ha (List.cons_ne_nil x more) hend hprefix)]
  simp

theorem undone_replace (htoken : contains token "github.com" = false) (s : String)
    (h : ∀ piece ∈ (split "github.com" s).dropLast, ¬ Overlaps token piece) :
    undone token (replace "github.com" (marked token) s) = s := by
  have hsite : "github.com" ≠ "" := by decide
  have hmark : marked token ≠ "" := by simp [marked]
  induction s using cut_induction hsite with
  | whole s hwhole =>
    rw [cut?_eq_none_iff] at hwhole
    rw [replace_of_contains_eq_false _ hsite hwhole, undone_eq_self hwhole]
  | cut s a b hcut ih =>
    rw [split_of_cut? hsite hcut, List.dropLast_cons_of_ne_nil (split_ne_nil _ _)] at h
    obtain ⟨ha, hrest⟩ := List.forall_mem_cons.1 h
    have hmarked := cut?_marked htoken (contains_of_cut? hsite hcut) ha
      (replace "github.com" (marked token) b)
    rw [replace_of_cut? _ hsite hcut, undone, replace_of_cut? _ hmark hmarked, ← undone, ih hrest,
      ← eq_of_cut? hcut]

/-! ### Letter case -/

theorem caseRuns_site : ∀ run ∈ caseRuns, ("github.com".toList.all fun x => run.last < 0x80 ∨
    (run.last : Int) + run.shift < x.toNat ∨ (x.toNat : Int) < run.first + run.shift) = true := by
  decide +kernel

theorem lowerChar_eq_iff {x : Char} (hx : x ∈ "github.com".toList) :
    lowerChar c = x ↔ c.toLower = x := by
  have hsmall : ("github.com".toList.all fun x => 0 < x.toNat ∧ x.toNat < 0x80) = true := by decide
  have hx' := of_decide_eq_true (List.all_eq_true.1 hsmall x hx)
  by_cases hc : c.toNat < 0x80
  · rw [lowerChar, if_pos hc]
  · have hlower : c.toLower = c := by
      refine dif_neg fun h => ?_
      have hle : c.toNat ≤ 90 := UInt32.le_iff_toNat_le.1 h.2
      omega
    rw [hlower]
    refine iff_of_false ?_ (by rintro rfl; omega)
    rintro rfl
    have hsame : lowerChar c = c :=
      lowerChar_eq_self (by omega) (by omega) fun run hrun =>
        of_decide_eq_true (List.all_eq_true.1 (caseRuns_site run hrun) _ hx)
    rw [hsame] at hx'
    omega

theorem prefix_lowerAfter (before : List Char) (h : word <:+ "github.com".toList) :
    word <+: lowerAfter before cs ↔ word <+: cs.map Char.toLower := by
  induction cs generalizing word before with
  | nil => rfl
  | cons c cs ih =>
    cases word with
    | nil => simp
    | cons x word =>
      have hx : x ∈ "github.com".toList := h.subset List.mem_cons_self
      have hnot {y : Char} {ys : List Char} (hy : y ∉ "github.com".toList) :
          ¬ x :: word <+: y :: ys := fun hprefix => hy ((List.cons_prefix_cons.1 hprefix).1 ▸ hx)
      have htail : word <:+ "github.com".toList := (List.suffix_cons x word).trans h
      obtain ⟨small, hlower, rfl | ⟨rfl, rfl⟩ | ⟨rfl, rfl⟩⟩ := lowerAfter_cons before c cs
      · rw [hlower, List.singleton_append, List.map_cons, List.cons_prefix_cons,
          List.cons_prefix_cons, ih _ htail, @eq_comm _ x, @eq_comm _ x, lowerChar_eq_iff hx]
      · rw [hlower]
        exact iff_of_false (hnot (by decide)) (hnot (by decide))
      · refine iff_of_false ?_ (hnot (by decide))
        rw [hlower]
        intro hprefix
        obtain ⟨rfl, hrest⟩ := List.cons_prefix_cons.1 hprefix
        cases word with
        | nil => exact absurd h (by decide)
        | cons y word =>
          obtain rfl := (List.cons_prefix_cons.1 hrest).1
          exact absurd (htail.subset List.mem_cons_self) (by decide)

theorem infix_lowerAfter (before cs : List Char) :
    "github.com".toList <:+: lowerAfter before cs ↔
      "github.com".toList <:+: cs.map Char.toLower := by
  induction cs generalizing before with
  | nil => rfl
  | cons c cs ih =>
    rw [List.map_cons, List.infix_cons_iff, ← ih (c :: before), ← List.map_cons,
      ← prefix_lowerAfter before (List.suffix_refl _)]
    obtain ⟨small, hlower, rfl | ⟨rfl, rfl⟩ | ⟨rfl, rfl⟩⟩ := lowerAfter_cons before c cs
    · rw [hlower, List.singleton_append, List.infix_cons_iff]
    · rw [hlower, List.singleton_append, List.infix_cons_iff]
    · rw [hlower, List.cons_append, List.singleton_append, List.infix_cons_iff, List.infix_cons_iff]
      simp

theorem toList_lower (s : String) : (lower s).toList = lowerAfter [] s.toList :=
  String.toList_ofList

theorem infix_join (sep : String) {p : String} {ps : List String} (h : p ∈ ps) :
    p.toList <:+: (join sep ps).toList := by
  induction ps with
  | nil => cases h
  | cons q ps ih =>
    cases ps with
    | nil =>
      obtain rfl := List.mem_singleton.1 h
      simp only [join_singleton, List.infix_refl]
    | cons r ps =>
      rw [join_cons_cons, String.toList_append]
      rcases List.mem_cons.1 h with rfl | h
      · rw [String.toList_append, List.append_assoc]
        exact (List.prefix_append _ _).isInfix
      · exact (ih h).trans (List.suffix_append _ _).isInfix

theorem exists_of_infix_join (sep : String) {part : List Char} {ps : List String}
    (hsep : sep.toList = [c]) (hc : c ∉ part) (hpart : part ≠ [])
    (h : part <:+: (join sep ps).toList) : ∃ p ∈ ps, part <:+: p.toList := by
  induction ps with
  | nil => exact absurd (List.eq_nil_of_infix_nil h) hpart
  | cons p ps ih =>
    cases ps with
    | nil => exact ⟨p, List.mem_cons_self, join_singleton sep p ▸ h⟩
    | cons q ps =>
      simp only [join_cons_cons, String.toList_append, hsep, List.append_assoc,
        List.singleton_append] at h
      rcases infix_append_cons hc h with hp | hrest
      · exact ⟨p, List.mem_cons_self, hp⟩
      · obtain ⟨r, hr, hin⟩ := ih hrest
        exact ⟨r, List.mem_cons_of_mem p hr, hin⟩

/-- A part of a line is left as it is or, where it starts like the address of a source, put in lower
case. -/
def Recast (part new : String) : Prop :=
  new = part ∨ startsWith (trim part) "git+http" = true ∧ new = lower part

/-- The text is the line but for the case of such parts between its `@`s. -/
def Recased (line text : String) : Prop :=
  ∃ parts, text = join "@" parts ∧ List.Forall₂ Recast (split "@" line) parts

theorem lowerSources_eq (line : String) : ∃ f : String → String, (∀ part, Recast part (f part)) ∧
    lowerSources line = join "@" ((split "@" line).map f) := by
  rw [lowerSources]
  split
  · refine ⟨_, fun part => ?_, rfl⟩
    split
    · exact .inr ⟨‹_›, rfl⟩
    · exact .inl rfl
  · exact ⟨id, fun _ => .inl rfl, by rw [List.map_id, join_split "@" (by decide)]⟩

theorem recased_lowerSources (line : String) : Recased line (lowerSources line) := by
  obtain ⟨f, hf, heq⟩ := lowerSources_eq line
  exact ⟨_, heq, List.forall₂_map_right_iff.2 (List.forall₂_same.2 fun part _ => hf part)⟩

theorem Recast.isInfix {part new : String} (h : Recast part new) :
    ("github.com".toList <:+: part.toList → "github.com".toList <:+: new.toList) ∧
      ("github.com".toList <:+: new.toList →
        "github.com".toList <:+: part.toList.map Char.toLower) := by
  obtain rfl | ⟨-, rfl⟩ := h
  · exact ⟨id, fun h => h.map Char.toLower⟩
  · rw [toList_lower, infix_lowerAfter]
    exact ⟨fun h => h.map Char.toLower, id⟩

/-- In lower case the sources name the site where they did before, and nowhere else but where they
named it in another letter case. -/
theorem contains_lowerSources (line : String) :
    (contains line "github.com" = true → contains (lowerSources line) "github.com" = true) ∧
      (contains (lowerSources line) "github.com" = true →
        contains line.toLower "github.com" = true) := by
  obtain ⟨f, hf, heq⟩ := lowerSources_eq line
  have hline : join "@" (split "@" line) = line := join_split "@" (by decide) line
  have hlower : line.toLower.toList = line.toList.map Char.toLower := String.toList_map
  rw [heq, contains_iff_infix, contains_iff_infix, contains_iff_infix, hlower]
  constructor
  · intro h
    rw [← hline] at h
    obtain ⟨part, hpart, hin⟩ := exists_of_infix_join "@" rfl (by decide) (by decide) h
    exact ((hf part).isInfix.1 hin).trans (infix_join "@" (List.mem_map_of_mem hpart))
  · intro h
    obtain ⟨new, hnew, hin⟩ := exists_of_infix_join "@" rfl (by decide) (by decide) h
    obtain ⟨part, hpart, rfl⟩ := List.mem_map.1 hnew
    have hpart' := infix_join "@" hpart
    rw [hline] at hpart'
    exact ((hf part).isInfix.2 hin).trans (hpart'.map Char.toLower)

/-- What stands for a line gives it back but for letter case when the token is taken out, unless a
piece in front of a site overlaps, and is the line itself if that does not name the site. -/
def Reverts (token line entry : String) : Prop :=
  ((∀ piece ∈ (split "github.com" (lowerSources line)).dropLast, ¬ Overlaps token piece) →
    Recased line (undone token entry)) ∧
  (contains line.toLower "github.com" = false → entry = line)

theorem authorize_reverts (htoken : token ≠ "") (hclean : contains token "github.com" = false)
    (line : String) : Reverts token line (authorize token line) := by
  obtain ⟨hkept, hnamed⟩ := contains_lowerSources line
  cases hsite : contains (lowerSources line) "github.com" with
  | true =>
    have heq : authorize token line = replace "github.com" (marked token) (lowerSources line) := by
      simp [authorize, htoken, hsite, marked]
    refine ⟨fun hpieces => ?_, fun h => by simp [hnamed hsite] at h⟩
    rw [heq, undone_replace hclean _ hpieces]
    exact recased_lowerSources line
  | false =>
    have heq : authorize token line = line := by simp [authorize, hsite]
    have hline : contains line "github.com" = false := by
      rw [← Bool.not_eq_true]
      exact fun h => by simp [hkept h] at hsite
    refine ⟨fun _ => ?_, fun _ => heq⟩
    rw [heq, undone_eq_self hline]
    exact ⟨_, (join_split "@" (by decide) line).symm, List.forall₂_same.2 fun _ _ => .inl rfl⟩

/-- The lines of a text that are neither blank nor remarks, without the blanks around them. -/
def required (text : String) : List String :=
  ((Files.lines text).filter fun line => ¬ IsRemark line).map trim

theorem requirementLines_eq (text : String) : requirementLines text = required text := by
  rw [requirementLines, required, List.filter_map]
  refine congrArg _ (List.filter_congr fun line _ => ?_)
  rw [Bool.eq_iff_iff]
  simp [isRemark_iff]

/-- The requirements in a file are its lines that are neither blank nor remarks, in order, and with a
token each of them reverts to its line. -/
theorem requirementsIn_reversible {files : Files} {root name : String} (htoken : token ≠ "")
    (hclean : contains token "github.com" = false)
    (htext : (files.resolve root [] (joinPath root name) >>= files.readTarget) = .ok text) :
    requirementsIn files root "" (.str name) = .ok (required text) ∧
    ∃ entries, requirementsIn files root token (.str name) = .ok entries ∧
      List.Forall₂ (Reverts token) (required text) entries := by
  have hread (token : String) :
      requirementsIn files root token (.str name) = .ok (requirements token text) := by
    obtain ⟨target, htarget, htext⟩ := except_bind_ok_iff.1 htext
    simp only [requirementsIn, Value.needle, bind, Except.bind, htarget, htext]
    rfl
  refine ⟨?_, _, hread token, ?_⟩
  · have hplain : authorize "" = id := rfl
    rw [hread, requirements, requirementLines_eq, hplain, List.map_id]
  · rw [requirements, requirementLines_eq, List.forall₂_map_right_iff, List.forall₂_same]
    exact fun line _ => authorize_reverts htoken hclean line

def manifest : String := "# remark\n\nneon-utils\ngit+https://GitHub.com/neon@main\n"

theorem manifest_reversible :
    requirementsIn { files := [(["requirements.txt"], manifest)] } "/r" ""
      (.str "requirements.txt") = .ok (required manifest) ∧
    ∃ entries, requirementsIn { files := [(["requirements.txt"], manifest)] } "/r" "key"
      (.str "requirements.txt") = .ok entries ∧
      List.Forall₂ (Reverts "key") (required manifest) entries :=
  requirementsIn_reversible (by decide) (by decide) rfl

theorem hub_not_reversed :
    requirements "hub.com" "hub.com@gitgithub.com" = ["hub.com@github.com@github.com"] ∧
    ¬ Recased "hub.com@gitgithub.com" (undone "hub.com" "hub.com@github.com@github.com") := by
  refine ⟨by decide, ?_⟩
  rintro ⟨parts, htext, hparts⟩
  rw [show split "@" "hub.com@gitgithub.com" = ["hub.com", "gitgithub.com"] by decide] at hparts
  have hsame {part new : String} (hpart : startsWith (trim part) "git+http" = false)
      (h : Recast part new) : new = part := by simpa [Recast, hpart] using h
  cases hparts with
  | cons h hrest =>
    cases hrest with
    | cons h' hnil =>
      cases hnil
      rw [hsame (by decide) h, hsame (by decide) h'] at htext
      exact absurd htext (by decide)

end Colloquy.Package
