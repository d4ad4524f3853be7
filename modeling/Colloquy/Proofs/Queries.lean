import Colloquy.Proofs.Places
import Colloquy.Proofs.Templates

/-! Asking whether there is a script.  The script that is meant is the longest name of a file that
occurs in the utterance.  If there is one, the question is answered once, and by the files that there
are.  If none occurs, there is no answer at all. -/

namespace Colloquy

open Session Text List

/-! ### Names of files -/

theorem mem_stem {name : String} {x : Char} (h : x ∈ (stem name).toList) :
    x ∈ name.toList ∨ x = '.' := by
  have hbase {x : Char} (hx : x ∈ (baseName name).toList) : x ∈ name.toList := by
    unfold baseName at hx
    cases hlast : (split "/" name).getLast? with
    | none => simp [hlast] at hx
    | some piece =>
      rw [hlast] at hx
      exact mem_of_mem_split (by decide) (mem_of_getLast? hlast) hx
  unfold stem at h
  extract_lets base folder dots rest at h
  split at h
  · rename_i last first more hparts
    simp only [String.toList_append, mem_append] at h
    rcases h with (hfolder | hdots) | hjoin
    · exact .inl (mem_of_mem_take (String.toList_ofList ▸ hfolder))
    · exact .inl (hbase (takeWhile_subset _ (String.toList_ofList ▸ hdots)))
    · rcases mem_join hjoin with hdot | ⟨piece, hpiece, hx⟩
      · exact .inr (by simpa using hdot)
      · have hmem : piece ∈ split "." (String.ofList rest) := by
          rw [← mem_reverse, hparts]
          exact mem_cons_of_mem _ (mem_reverse.1 hpiece)
        have hrest := mem_of_mem_split (by decide) hmem hx
        rw [String.toList_ofList] at hrest
        exact .inl (hbase (mem_of_mem_drop hrest))
  · exact .inl h

namespace Library

variable {s : Session} {name : String}

/-- The folder of scripts can be reached, and so can all files in it. -/
structure Shelved (s : Session) : Prop where
  folder : s.files.isFolder scriptFolder = true
  file : s.files.isFile scriptFolder = false
  root : s.files.isFile [] = false
  path : Char.ofNat 0 ∉ s.root.toList
  names : ∀ name ∈ s.files.listing scriptFolder, '/' ∉ name.toList ∧ Char.ofNat 0 ∉ name.toList
  fits : ∀ name : String, s.files.isFile (scriptFolder ++ [name]) = true →
    name.utf8ByteSize ≤ Files.maxNameSize ∧
      (s.path (scriptFolder ++ [name])).utf8ByteSize ≤ Files.maxPathSize

theorem follow_script (files : Files) (hlong : 2 < name.length) :
    files.follow [] ["script_txt", name] =
      if files.isFile [] ∨ files.isFile scriptFolder then .error .notDirectory
      else if files.isFolder scriptFolder = false then .error .missingFile
      else if Files.maxNameSize < name.utf8ByteSize then .error .storageFailure
      else .ok (.inside (scriptFolder ++ [name])) := by
  have hne {short : String} (hshort : short.length ≤ 2) : name ≠ short := by
    rintro rfl
    omega
  have hhere : Files.isHere name = false := by
    simp only [Files.isHere, Bool.or_eq_false_iff, beq_eq_false_iff_ne]
    exact ⟨hne (by decide), hne (by decide)⟩
  have hstart : Files.isHere "script_txt" = false := by decide
  have hroot : files.isFolder [] = true := rfl
  have hup : name ≠ ".." := hne (by decide)
  have hsize : ¬ Files.maxNameSize < "script_txt".utf8ByteSize := by decide
  simp [Files.follow, hroot, hstart, hhere, hup, hsize, scriptFolder]
  grind

theorem path_script (s : Session) (name : String) :
    s.path (scriptFolder ++ [name]) = s.root ++ "/" ++ ("script_txt" ++ "/" ++ name) := by
  simp [path, scriptFolder, join_cons_cons, join_singleton, String.append_assoc]

theorem resolve_script (hname : '/' ∉ name.toList)
    (hplain : Char.ofNat 0 ∉ (s.path (scriptFolder ++ [name])).toList) :
    s.files.resolve s.root ["cwd"] (s.path (scriptFolder ++ [name])) =
      if Files.maxPathSize < (s.path (scriptFolder ++ [name])).utf8ByteSize then
        .error .storageFailure
      else s.files.follow [] ["script_txt", name] := by
  have hlist : (s.path (scriptFolder ++ [name])).toList =
      (s.root.toList ++ ['/']) ++ ("script_txt" ++ "/" ++ name).toList := by
    rw [path_script]
    simp
  have hempty : (s.path (scriptFolder ++ [name])).isEmpty = false := by
    rw [Bool.eq_false_iff, Ne, String.isEmpty_iff]
    intro hnil
    simp [hnil] at hlist
  have hroot : (s.path (scriptFolder ++ [name]) == s.root) = false := by
    rw [beq_eq_false_iff_ne]
    intro heq
    rw [heq] at hlist
    simpa using congrArg List.length hlist
  have hstart : startsWith (s.path (scriptFolder ++ [name])) (s.root ++ "/") = true := by
    rw [startsWith, hlist, String.toList_append]
    exact isPrefixOf_iff_prefix.2 (prefix_append ..)
  have hdrop : String.ofList ((s.path (scriptFolder ++ [name])).toList.drop (s.root.length + 1)) =
      "script_txt" ++ "/" ++ name := by
    rw [hlist, drop_left' (by simp [String.length_toList]), String.ofList_toList]
  have hsplit : split "/" ("script_txt" ++ "/" ++ name) = ["script_txt", name] := by
    rw [split_append "/" rfl (by decide), split_of_not_mem "/" rfl hname]
  simp only [Files.resolve, hempty, hroot, hstart, hdrop, hsplit]
  simp [hplain]

/-- A file of the folder of scripts is found by its path if there is one.  Where there is none, no
file is found, whatever the folder is like. -/
theorem isFileAt_script (hname : '/' ∉ name.toList) (hlong : 2 < name.length)
    (h : s.files.isFile (scriptFolder ++ [name]) = true →
      Shelved s ∧ Char.ofNat 0 ∉ name.toList) :
    isFileAt (s.path (scriptFolder ++ [name])) s =
      .ok (s.files.isFile (scriptFolder ++ [name])) s := by
  refine (bind_of_ok rfl).trans ?_
  cases hfile : s.files.isFile (scriptFolder ++ [name]) with
  | true =>
    obtain ⟨hshelved, hplain⟩ := h hfile
    obtain ⟨hn, hp⟩ := hshelved.fits name hfile
    have hnull : Char.ofNat 0 ∉ (s.path (scriptFolder ++ [name])).toList := by
      rw [path_script]
      simp [hshelved.path, hplain]
    rw [resolve_script hname hnull, follow_script s.files hlong]
    simp [hshelved.root, hshelved.file, hshelved.folder, Nat.not_lt.2 hp, Nat.not_lt.2 hn, hfile]
  | false =>
    by_cases hnull : Char.ofNat 0 ∈ (s.path (scriptFolder ++ [name])).toList
    · simp [Files.resolve, hnull]
    rcases hat : s.files.resolve s.root ["cwd"] (s.path (scriptFolder ++ [name])) with
      fault | (place | _)
    · rfl
    · obtain rfl : place = scriptFolder ++ [name] := by
        rw [resolve_script hname hnull, follow_script s.files hlong] at hat
        grind
      exact congrArg (EStateM.Result.ok · s) hfile
    · rfl

theorem hasScript_str (hname : '/' ∉ name.toList)
    (h : ∀ ext, s.files.isFile (scriptFolder ++ [name ++ ext]) = true →
      Shelved s ∧ Char.ofNat 0 ∉ name.toList) :
    hasScript (.str name) s =
      .ok (s.files.isFile (scriptFolder ++ [name ++ compiledExtension]) ||
        s.files.isFile (scriptFolder ++ [name ++ textExtension])) s := by
  have hat {ext : String} (hext : ext = compiledExtension ∨ ext = textExtension) :
      isFileAt (s.path scriptFolder ++ "/" ++ name ++ ext) s =
        .ok (s.files.isFile (scriptFolder ++ [name ++ ext])) s := by
    have hfolder : s.path scriptFolder = s.root ++ "/" ++ "script_txt" := by
      simp [path, scriptFolder, join_cons_cons, join_singleton]
    have hpath : s.path scriptFolder ++ "/" ++ name ++ ext = s.path (scriptFolder ++ [name ++ ext]) := by
      rw [path_script, hfolder]
      simp only [String.append_assoc]
    rw [hpath]
    have hfree : '/' ∉ ext.toList ∧ Char.ofNat 0 ∉ ext.toList ∧ 2 < ext.length := by
      rcases hext with rfl | rfl <;> decide
    refine isFileAt_script (by simp [hname, hfree.1]) (by simp; omega) fun hfile => ?_
    exact ⟨(h ext hfile).1, by simp [(h ext hfile).2, hfree.2.1]⟩
  unfold hasScript
  refine (bind_of_ok rfl).trans ?_
  refine (bind_of_ok (lift_ok_apply name s)).trans ?_
  refine (bind_of_ok (hat (.inl rfl))).trans ?_
  cases s.files.isFile (scriptFolder ++ [name ++ compiledExtension]) with
  | true => rfl
  | false => exact hat (.inr rfl)

/-! ### The name that is meant -/

theorem longest?_eq_none {names : List String} : longest? names = none ↔ names = [] := by
  cases names with
  | nil => simp [longest?]
  | cons first rest =>
    rw [longest?]
    cases longest? rest <;> simp

theorem longest?_eq_some {names : List String} (h : longest? names = some name) :
    name ∈ names ∧ ∀ other ∈ names, other.length ≤ name.length := by
  induction names generalizing name with
  | nil => simp [longest?] at h
  | cons first rest ih =>
    rw [longest?] at h
    cases hrest : longest? rest with
    | none =>
      obtain rfl := longest?_eq_none.1 hrest
      obtain rfl : first = name := by simpa [longest?] using h
      simp
    | some best =>
      obtain ⟨hmem, hmax⟩ := ih hrest
      grind

theorem filterAuxM_member (names kept : List String) (utterance : String) (s : Session) :
    names.filterAuxM (fun name => (liftM (Value.member (.str name) (.str utterance)) : Run Bool))
        kept s = .ok ((names.filter (contains utterance)).reverse ++ kept) s := by
  induction names generalizing kept with
  | nil => rfl
  | cons name rest ih =>
    refine (bind_of_ok (lift_ok_apply (contains utterance name) s)).trans ?_
    rw [ih]
    cases htext : contains utterance name <;> simp [htext]

def heard (s : Session) (utterance : String) : List String :=
  ((s.files.listing scriptFolder).map stem).filter (Text.contains utterance)

variable {m : Message} {utterance : String}

theorem requestedName_eq (hfolder : s.files.isFolder scriptFolder = true)
    (hm : s.message = some m) (hutterance : Entries.find? "utterance" m.data = some (.str utterance)) :
    requestedName s = .ok (((longest? (heard s utterance)).map Value.str).getD .null) s := by
  have hdatum : datum "utterance" .null s = .ok (.str utterance) s := by
    rw [datum, bind_of_ok (theMessage_of_some hm), hutterance]
    rfl
  have hlist : s.files.list scriptFolder = .ok (s.files.listing scriptFolder) := by
    rw [Files.list, if_pos hfolder]
  refine (bind_of_ok hdatum).trans ?_
  have hname : nameIn (.str utterance) s = .ok (longest? (heard s utterance)) s := by
    refine (bind_of_ok rfl).trans ?_
    rw [hlist]
    refine (bind_of_ok (lift_ok_apply _ s)).trans ?_
    refine (bind_of_ok ?_).trans rfl
    refine (bind_of_ok (filterAuxM_member ..)).trans ?_
    simp [heard]
  exact (bind_of_ok hname).trans rfl

end Library

open Library

namespace Launch

variable {s : Session} {m : Message} {utterance : String}

theorem answerQuery_of_unheard (hfolder : s.files.isFolder scriptFolder = true)
    (hm : s.message = some m)
    (hutterance : Entries.find? "utterance" m.data = some (.str utterance))
    (hnone : heard s utterance = []) : answerQuery s = .error .wrongKind s := by
  have hname := requestedName_eq hfolder hm hutterance
  rw [longest?_eq_none.2 hnone] at hname
  exact (bind_of_ok hname).trans (bind_of_error rfl)

/-- A question for a script is answered if the name of a script occurs in it: once, by the longest
of these names, and by whether there is a script of that name.  If there is none, it fails. -/
theorem answerQuery_heard (h : Shelved s) (hm : s.message = some m)
    (hutterance : Entries.find? "utterance" m.data = some (.str utterance)) :
    (heard s utterance = [] → answerQuery s = .error .wrongKind s) ∧
    (heard s utterance ≠ [] → ∃ name ∈ heard s utterance,
      (∀ other ∈ heard s utterance, other.length ≤ name.length) ∧
      answerQuery s = .ok () { s with
        events := .emit "neon.script_exists.response"
          (.table [("script_name", .str name), ("script_exists",
            .bool (s.files.isFile (scriptFolder ++ [name ++ compiledExtension]) ||
              s.files.isFile (scriptFolder ++ [name ++ textExtension])))])
          (.table m.context) :: s.events }) := by
  have hname := requestedName_eq h.folder hm hutterance
  refine ⟨answerQuery_of_unheard h.folder hm hutterance, fun hsome => ?_⟩
  cases hlongest : longest? (heard s utterance) with
  | none => exact absurd (longest?_eq_none.1 hlongest) hsome
  | some name =>
    obtain ⟨hmem, hmax⟩ := longest?_eq_some hlongest
    refine ⟨name, hmem, hmax, ?_⟩
    have hplain : '/' ∉ name.toList ∧ Char.ofNat 0 ∉ name.toList := by
      obtain ⟨file, hfile, rfl⟩ := List.mem_map.1 (List.mem_filter.1 hmem).1
      obtain ⟨hslash, hnull⟩ := h.names file hfile
      constructor <;> intro hx <;> rcases mem_stem hx with hx | hx
      · exact hslash hx
      · exact absurd hx (by decide)
      · exact hnull hx
      · exact absurd hx (by decide)
    rw [hlongest] at hname
    refine (bind_of_ok hname).trans ?_
    refine (bind_of_ok (hasScript_str hplain.1 fun _ _ => ⟨h, hplain.2⟩)).trans ?_
    exact bind_of_ok (theMessage_of_some hm)

def inquiry (utterance : String) : Session :=
  { root := "/r"
    files := { files := [(["script_txt", "pat test.txt"], ""), (["script_txt", "pat.ncs"], "")]
               folders := [["script_txt"]] }
    message := some { data := [("utterance", .str utterance)] } }

theorem listing_inquiry (utterance : String) :
    (inquiry utterance).files.listing scriptFolder = ["pat test.txt", "pat.ncs"] :=
  mergeSort_of_pairwise (l := ["pat test.txt", "pat.ncs"]) (by decide)

theorem find_inquiry (utterance : String) :
    Entries.find? "utterance" [("utterance", .str utterance)] = some (.str utterance) := by
  simp [Entries.find?, Value.str_same]

theorem inquiry_shelved (utterance : String) : Shelved (inquiry utterance) where
  folder := rfl
  file := rfl
  root := rfl
  path := show Char.ofNat 0 ∉ "/r".toList by decide
  names := by
    rw [listing_inquiry]
    decide
  fits := by
    have hfits : ∀ name ∈ ["pat test.txt", "pat.ncs"], name.utf8ByteSize ≤ Files.maxNameSize ∧
        (join "/" ["/r", "script_txt", name]).utf8ByteSize ≤ Files.maxPathSize := by decide
    intro name hname
    refine hfits name ?_
    simp only [inquiry, Files.isFile, scriptFolder, any_cons, any_nil] at hname
    grind

theorem answerQuery_heard_pat :
    heard (inquiry "run pat test") "run pat test" = ["pat test", "pat"] ∧
    answerQuery (inquiry "run pat test") = .ok () { inquiry "run pat test" with
      events := [.emit "neon.script_exists.response"
        (.table [("script_name", "pat test"), ("script_exists", .bool false)]) .emptyTable] } := by
  have hheard : heard (inquiry "run pat test") "run pat test" = ["pat test", "pat"] := by
    rw [heard, listing_inquiry]
    decide
  refine ⟨hheard, ?_⟩
  obtain ⟨name, hmem, hmax, hanswer⟩ :=
    (answerQuery_heard (inquiry_shelved "run pat test") rfl (find_inquiry _)).2 (by simp [hheard])
  rw [hheard] at hmem hmax
  have hlong := hmax "pat test" (by decide)
  obtain rfl | rfl : name = "pat test" ∨ name = "pat" := by simpa using hmem
  · exact hanswer
  · exact absurd hlong (by decide)

theorem answerQuery_hello : heard (inquiry "hello") "hello" = [] ∧
    answerQuery (inquiry "hello") = .error .wrongKind (inquiry "hello") := by
  have hheard : heard (inquiry "hello") "hello" = [] := by
    rw [heard, listing_inquiry]
    decide
  exact ⟨hheard, answerQuery_of_unheard rfl rfl (find_inquiry _) hheard⟩

end Launch

end Colloquy
