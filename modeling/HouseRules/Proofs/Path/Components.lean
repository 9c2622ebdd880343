import HouseRules.Proofs.FileTree.Names

/-! Components of paths: the name at the end of a joined path, its extension, and what the parent
of a path has. -/

namespace HouseRules

namespace Text

theorem pieces_joinPieces {sep : Char} {ps : List (List Char)} (hps : ps ≠ [])
    (h : ∀ p ∈ ps, sep ∉ p) : pieces sep (joinPieces sep ps) = ps := by
  fun_induction joinPieces sep ps with
  | case1 => exact absurd rfl hps
  | case2 p => exact pieces_of_not_mem (h p List.mem_cons_self)
  | case3 p q ps ih =>
    rw [pieces_append_cons, pieces_of_not_mem (h p List.mem_cons_self),
      ih (List.cons_ne_nil q ps) fun r hr => h r (List.mem_cons_of_mem p hr)]
    rfl

end Text

namespace Path

variable {dir name : String}

/-! ### The name at the end -/

/-- What a path starts with is at most its first piece. -/
theorem split_snd (p : List Char) :
    ∃ first rest, Text.pieces '/' p = first :: rest ∧
      ((split p).2 = rest ∨ ∃ first', (split p).2 = first' :: rest) := by
  fun_cases split p with
  | case1 rest => exact ⟨[], Text.pieces '/' rest, by simp [Text.pieces], .inl rfl⟩
  | case2 => exact ⟨['.'], [], by simp [Text.pieces], .inr ⟨[], rfl⟩⟩
  | case3 rest => exact ⟨['.'], Text.pieces '/' rest, by simp [Text.pieces], .inr ⟨[], rfl⟩⟩
  | case4 p =>
    obtain ⟨first, rest, hp⟩ := List.exists_cons_of_ne_nil (Text.pieces_ne_nil '/' p)
    exact ⟨first, rest, hp, .inr ⟨first, hp⟩⟩

/-- The last piece of a joined path is the name. -/
theorem exists_split_join (h : IsName name) (dir : String) :
    ∃ pieces, (split (join dir name).toList).2 = pieces ++ [name.toList] := by
  have hname : Text.pieces '/' name.toList = [name.toList] :=
    Text.pieces_of_not_mem h.slash_not_mem
  obtain ⟨before, hjoin, hbefore⟩ := h.exists_join dir
  rw [hjoin, String.toList_ofList]
  obtain rfl | hend := hbefore
  · refine ⟨[], ?_⟩
    rw [List.nil_append, split]
    · exact hname
    · intro rest hp
      exact h.slash_not_mem (hp ▸ List.mem_cons_self)
    · intro hp
      exact h.ne_dot (String.toList_inj.1 hp)
    · intro rest hp
      exact h.slash_not_mem (hp ▸ List.mem_cons_of_mem _ List.mem_cons_self)
  · obtain ⟨b, rfl⟩ := List.getLast?_eq_some_iff.1 hend
    obtain ⟨first, rest, hpieces, hsplit⟩ := split_snd (b ++ ['/'] ++ name.toList)
    rw [List.append_assoc, List.singleton_append, Text.pieces_append_cons, hname] at hpieces
    obtain ⟨x, xs, hb⟩ := List.exists_cons_of_ne_nil (Text.pieces_ne_nil '/' b)
    rw [hb, List.cons_append, List.cons.injEq] at hpieces
    obtain h | ⟨first', h⟩ := hsplit
    · exact ⟨xs, by rw [h, ← hpieces.2]⟩
    · exact ⟨first' :: xs, by rw [h, ← hpieces.2, List.cons_append]⟩

theorem isComponent_of_isName (h : IsName name) : isComponent name.toList = true := by
  have hdot : name.toList ≠ ['.'] := fun hp => h.ne_dot (String.toList_inj.1 hp)
  simp [isComponent, hdot, h.toList_ne_nil]

theorem trimPieces_concat (h : IsName name) (pieces : List (List Char)) :
    trimPieces (pieces ++ [name.toList]) = pieces ++ [name.toList] := by
  simp [trimPieces, isComponent_of_isName h]

theorem fileName?_join (h : IsName name) (dir : String) :
    fileName? (join dir name) = some name := by
  obtain ⟨pieces, hsplit⟩ := exists_split_join h dir
  have hparent : name.toList ≠ ['.', '.'] := fun hp => h.ne_parent (String.toList_inj.1 hp)
  rw [fileName?, hsplit, trimPieces_concat h, List.getLast?_concat]
  simp [hparent]

/-! ### Components of joined paths -/

theorem filter_split (p : List Char) :
    (split p).2.filter isComponent = (Text.pieces '/' p).filter isComponent := by
  fun_cases split p with
  | case1 rest => simp [Text.pieces, isComponent]
  | case2 => simp [Text.pieces, isComponent]
  | case3 rest => simp [Text.pieces, isComponent]
  | case4 => rfl

theorem components_eq (p : String) :
    components p = ((Text.pieces '/' p.toList).filter isComponent).map String.ofList := by
  rw [components, filter_split]

/-- The components of a path are its names without `.`. -/
theorem components_eq_filter (p : String) :
    components p = (FileTree.pathNames p).filter (· ≠ ".") := by
  have names : ((Text.pieces '/' p.toList).filter isComponent).map String.ofList =
      (((Text.pieces '/' p.toList).filter (!·.isEmpty)).map String.ofList).filter (· ≠ ".") := by
    rw [List.filter_map, List.filter_filter]
    congr 2
    funext piece
    have hdot : String.ofList piece = "." ↔ piece = ['.'] := by
      rw [← String.toList_inj, String.toList_ofList]
      rfl
    simp [isComponent, hdot, Bool.and_comm]
  rw [components_eq, names, FileTree.pathNames]
  split <;> simp

theorem components_join (h : IsName name) (dir : String) :
    components (join dir name) = components dir ++ [name] := by
  have hname : Text.pieces '/' name.toList = [name.toList] :=
    Text.pieces_of_not_mem h.slash_not_mem
  have hcomponent := isComponent_of_isName h
  simp only [components_eq]
  rw [join, h.isAbsolute_eq_false, Bool.false_or]
  split
  · rename_i hdir
    simp_all [Text.pieces, isComponent]
  split
  · rename_i hend
    obtain ⟨before, hbefore⟩ := List.getLast?_eq_some_iff.1 hend
    rw [String.toList_append, hbefore, List.append_assoc, List.singleton_append,
      Text.pieces_append_cons, Text.pieces_append_cons, hname]
    simp [Text.pieces, hcomponent, isComponent.eq_1 []]
  · rw [String.toList_append, String.toList_append, List.append_assoc]
    show List.map String.ofList (List.filter isComponent (Text.pieces '/'
      (dir.toList ++ '/' :: name.toList))) = _
    rw [Text.pieces_append_cons, hname]
    simp [hcomponent]

theorem isAbsolute_join (h : IsName name) (hdir : dir ≠ "") :
    isAbsolute (join dir name) = isAbsolute dir := by
  have hhead (rest : List Char) : (dir.toList ++ rest).head? = dir.toList.head? := by
    obtain ⟨c, cs, hcs⟩ := List.exists_cons_of_ne_nil (mt String.toList_eq_nil_iff.1 hdir)
    simp [hcs]
  rw [join, h.isAbsolute_eq_false, Bool.false_or, if_neg (by simpa using hdir)]
  split
  · simp [isAbsolute, hhead]
  · simp [isAbsolute, hhead]

/-! ### Extensions -/

theorem ne_dot_of_not_mem {ext : List Char} (hext : '.' ∉ ext) :
    ∀ c ∈ ext.reverse, (decide (c ≠ '.')) = true := by
  intro c hc
  exact decide_eq_true fun h => hext (h ▸ List.mem_reverse.1 hc)

theorem cutAtDot_append {stem ext : List Char} (hstem : stem ≠ []) (hext : '.' ∉ ext) :
    cutAtDot (stem ++ '.' :: ext) = (stem, some ext) := by
  have hreverse : (stem ++ '.' :: ext).reverse = ext.reverse ++ '.' :: stem.reverse := by simp
  rw [cutAtDot, hreverse, List.takeWhile_append_of_pos (ne_dot_of_not_mem hext),
    List.dropWhile_append_of_pos (ne_dot_of_not_mem hext)]
  simp [hstem]

/-- A name has an extension when there is something before its last dot. -/
theorem cutAtDot_eq_iff {cs ext : List Char} (hext : '.' ∉ ext) :
    (cutAtDot cs).2 = some ext ↔ ∃ stem, stem ≠ [] ∧ cs = stem ++ '.' :: ext := by
  constructor
  · intro h
    rw [cutAtDot] at h
    split at h
    · cases h
    · rename_i hstem
      have hafter : ((cs.reverse.takeWhile (· ≠ '.')).reverse) = ext := Option.some.inj h
      rcases hrest : cs.reverse.dropWhile (· ≠ '.') with _ | ⟨c, rest⟩
      · rw [hrest] at hstem
        exact absurd rfl hstem
      · have hc : c = '.' := by
          have hhead := List.head_dropWhile_not (fun c => decide (c ≠ '.')) (l := cs.reverse)
            (by rw [hrest]; exact List.cons_ne_nil c rest)
          simp only [hrest, List.head_cons] at hhead
          exact Classical.not_not.1 (of_decide_eq_false hhead)
        have whole := congrArg List.reverse
          (List.takeWhile_append_dropWhile (p := fun c => decide (c ≠ '.')) (l := cs.reverse))
        rw [hrest, List.reverse_append, hafter, List.reverse_reverse, hc,
          List.reverse_cons, List.append_assoc] at whole
        rw [hrest] at hstem
        exact ⟨rest.reverse, by simpa using hstem, whole.symm⟩
  · rintro ⟨stem, hstem, rfl⟩
    rw [cutAtDot_append hstem hext]

/-- The extension of a path that ends with a name is what stands after the last dot of the name,
unless that is its start. -/
theorem extension?_join (h : IsName name) (dir : String) {ext : String} (hext : '.' ∉ ext.toList) :
    extension? (join dir name) = some ext ↔ ∃ stem, stem ≠ "" ∧ name = stem ++ "." ++ ext := by
  rw [extension?, fileName?_join h, Option.bind_some, Option.map_eq_some_iff]
  constructor
  · rintro ⟨cs, hcut, rfl⟩
    rw [String.toList_ofList] at hext
    obtain ⟨stem, hstem, hname⟩ := (cutAtDot_eq_iff hext).1 hcut
    refine ⟨String.ofList stem, by simpa using hstem, String.toList_inj.1 ?_⟩
    simp [hname]
  · rintro ⟨stem, hstem, rfl⟩
    refine ⟨ext.toList, (cutAtDot_eq_iff hext).2 ⟨stem.toList, by simpa using hstem, ?_⟩, by simp⟩
    simp

/-- The stem of a path that ends with a name is what stands before the last dot of the name. -/
theorem fileStem?_join {stem ext : String} (h : IsName (stem ++ "." ++ ext)) (dir : String)
    (hstem : stem ≠ "") (hext : '.' ∉ ext.toList) :
    fileStem? (join dir (stem ++ "." ++ ext)) = some stem := by
  have spelled : (stem ++ "." ++ ext).toList = stem.toList ++ '.' :: ext.toList := by simp
  rw [fileStem?, fileName?_join h, Option.map_some, spelled,
    cutAtDot_append (mt String.toList_eq_nil_iff.1 hstem) hext, String.ofList_toList]

/-! ### Parents -/

/-- What a path starts with, and its pieces, make it up. -/
theorem joinPieces_split (p : List Char) :
    (split p).1.text ++ Text.joinPieces '/' (split p).2 = p := by
  fun_cases split p with
  | case1 rest => simp [Start.text, Text.joinPieces_pieces]
  | case2 => rfl
  | case3 rest =>
    obtain ⟨piece, pieces, hrest⟩ := List.exists_cons_of_ne_nil (Text.pieces_ne_nil '/' rest)
    have whole := Text.joinPieces_pieces '/' rest
    rw [hrest] at whole ⊢
    simp [Start.text, Text.joinPieces, whole]
  | case4 p => simp [Start.text, Text.joinPieces_pieces]

/-- A path that goes on after a slash starts as before and has more pieces. -/
theorem split_append {p : List Char} (hp : p ≠ []) (rest : List Char) :
    split (p ++ '/' :: rest) = ((split p).1, (split p).2 ++ Text.pieces '/' rest) := by
  fun_cases split p with
  | case1 rest' => simp [split, Text.pieces_append_cons]
  | case2 => rfl
  | case3 rest' => simp [split, Text.pieces_append_cons]
  | case4 p hroot hdot hcurrent =>
    rw [split, Text.pieces_append_cons]
    · rintro rest' h
      obtain ⟨c, cs, rfl⟩ := List.exists_cons_of_ne_nil hp
      rw [List.cons_append, List.cons.injEq] at h
      exact hroot cs (by rw [h.1])
    · intro h
      exact hp (List.append_eq_singleton_iff.1 h |>.resolve_right (by simp)).1
    · rintro rest' h
      obtain ⟨c, _ | ⟨c', cs⟩, rfl⟩ := List.exists_cons_of_ne_nil hp
      · exact hdot (by simpa using congrArg List.head? h)
      · obtain ⟨rfl, rfl, -⟩ : c = '.' ∧ c' = '/' ∧ _ := by simpa using h
        exact hcurrent cs rfl

/-- The parent of a path joined from a joined path is that one. -/
theorem parent?_join {last : String} (hlast : IsName last) (hname : IsName name) (dir : String) :
    parent? (join (join dir last) name) = some (join dir last) := by
  have hdir := hlast.join_ne_empty dir
  obtain ⟨pieces, hpieces⟩ := exists_split_join hlast dir
  have whole : (join (join dir last) name).toList = (join dir last).toList ++ '/' :: name.toList := by
    rw [hname.join_eq hdir (hlast.getLast?_join dir)]
    simp
  rw [parent?, whole, split_append (mt String.toList_eq_nil_iff.1 hdir),
    Text.pieces_of_not_mem hname.slash_not_mem]
  have kept : trimPieces (split (join dir last).toList).2 = (split (join dir last).toList).2 := by
    rw [hpieces, trimPieces_concat hlast]
  simp only [trimPieces_concat hname]
  split
  · rename_i hnil
    simp at hnil
  · rw [List.dropLast_concat, kept, joinPieces_split, String.ofList_toList]

/-- A path of two joined names has but one way to be joined of two. -/
theorem join_join_inj {dir dir' last last' name' : String} (hlast : IsName last)
    (hlast' : IsName last') (hname : IsName name) (hname' : IsName name')
    (h : join (join dir last) name = join (join dir' last') name') :
    join dir last = join dir' last' ∧ name = name' := by
  constructor
  · have parents := congrArg parent? h
    rw [parent?_join hlast hname, parent?_join hlast' hname'] at parents
    exact Option.some.inj parents
  · have names := congrArg fileName? h
    rw [fileName?_join hname, fileName?_join hname'] at names
    exact Option.some.inj names

theorem exists_append_of_trimPieces (pieces : List (List Char)) :
    ∃ junk, pieces = trimPieces pieces ++ junk ∧ ∀ piece ∈ junk, isComponent piece = false := by
  refine ⟨(pieces.reverse.takeWhile (!isComponent ·)).reverse, ?_, ?_⟩
  · rw [trimPieces, ← List.reverse_append, List.takeWhile_append_dropWhile, List.reverse_reverse]
  · intro piece hmem
    simpa using List.all_eq_true.1 List.all_takeWhile piece (List.mem_reverse.1 hmem)

theorem filter_trimPieces (pieces : List (List Char)) :
    (trimPieces pieces).filter isComponent = pieces.filter isComponent := by
  obtain ⟨junk, happend, hjunk⟩ := exists_append_of_trimPieces pieces
  have none : junk.filter isComponent = [] :=
    List.filter_eq_nil_iff.2 fun piece hmem => by simp [hjunk piece hmem]
  have whole := congrArg (List.filter isComponent) happend
  rw [List.filter_append, none, List.append_nil] at whole
  exact whole.symm

theorem trimPieces_isPrefix (pieces : List (List Char)) : trimPieces pieces <+: pieces := by
  obtain ⟨junk, happend, -⟩ := exists_append_of_trimPieces pieces
  exact ⟨junk, happend.symm⟩

theorem isComponent_getLast_trimPieces {pieces : List (List Char)} (h : trimPieces pieces ≠ []) :
    isComponent ((trimPieces pieces).getLast h) = true := by
  simp only [trimPieces, List.getLast_reverse]
  have hne : pieces.reverse.dropWhile (!isComponent ·) ≠ [] := by simpa [trimPieces] using h
  simpa using List.head_dropWhile_not (fun piece => !isComponent piece) hne

/-- The pieces of a path have no slash, those after `./` come after an empty one, and those of a
bare path start with one that is not empty. -/
theorem split_pieces (p : List Char) :
    (∀ piece ∈ (split p).2, '/' ∉ piece) ∧
      ((split p).1 = .current → (split p).2.head? = some []) ∧
      ((split p).1 = .bare → p ≠ [] → (split p).2.head? ≠ some []) ∧
      ((split p).1 = .root ↔ p.head? = some '/') := by
  have free {cs piece : List Char} (h : piece ∈ Text.pieces '/' cs) : '/' ∉ piece :=
    Text.sep_not_mem_of_mem_pieces h
  fun_cases split p with
  | case1 rest => exact ⟨fun _ => free, by simp, by simp, by simp⟩
  | case2 => exact ⟨by simp, by simp, by simp, by simp⟩
  | case3 rest =>
    refine ⟨fun piece hmem => ?_, by simp, by simp, by simp⟩
    obtain rfl | hmem := List.mem_cons.1 hmem
    · exact List.not_mem_nil
    · exact free hmem
  | case4 p hroot hdot hcurrent =>
    have hhead : p.head? ≠ some '/' := fun hp => by
      obtain ⟨rest, rfl⟩ := List.head?_eq_some_iff.1 hp
      exact hroot rest rfl
    refine ⟨fun _ => free, by simp, fun _ hp => ?_, by simpa using hhead⟩
    cases p with
    | nil => exact absurd rfl hp
    | cons c cs =>
      obtain ⟨first, rest, hpieces⟩ := List.exists_cons_of_ne_nil (Text.pieces_ne_nil '/' cs)
      rw [Text.pieces, if_neg (by simpa using hhead), hpieces]
      simp

theorem filter_pieces_append {start : Start} {pieces : List (List Char)}
    (free : ∀ piece ∈ pieces, '/' ∉ piece)
    (hcurrent : start = .current → pieces = [] ∨ pieces.head? = some []) :
    (Text.pieces '/' (start.text ++ Text.joinPieces '/' pieces)).filter isComponent =
      pieces.filter isComponent := by
  by_cases hnil : pieces = []
  · subst hnil
    cases start <;> rfl
  have whole := Text.pieces_joinPieces hnil free
  cases start with
  | root => simp [Start.text, Text.pieces, whole, isComponent]
  | bare => simp [Start.text, whole]
  | current =>
    obtain ⟨rest, rfl⟩ := List.head?_eq_some_iff.1 ((hcurrent rfl).resolve_left hnil)
    cases rest with
    | nil => rfl
    | cons piece rest =>
      have after := Text.pieces_joinPieces (List.cons_ne_nil piece rest)
        fun r hr => free r (List.mem_cons_of_mem [] hr)
      simp [Start.text, Text.joinPieces, Text.pieces, after, isComponent]

/-- A path of pieces starts with a slash only if it is read from the root. -/
theorem head?_text_append_iff {start : Start} {pieces : List (List Char)}
    (free : ∀ piece ∈ pieces, '/' ∉ piece) (hbare : start = .bare → pieces.head? ≠ some []) :
    (start.text ++ Text.joinPieces '/' pieces).head? = some '/' ↔ start = .root := by
  cases start with
  | root => simp [Start.text]
  | current => simp [Start.text]
  | bare =>
    cases pieces with
    | nil => simp [Start.text, Text.joinPieces]
    | cons piece rest =>
      have hne : piece ≠ [] := by
        rintro rfl
        exact hbare rfl rfl
      obtain ⟨c, cs, rfl⟩ := List.exists_cons_of_ne_nil hne
      have hc : c ≠ '/' := by
        rintro rfl
        exact free _ List.mem_cons_self List.mem_cons_self
      cases rest <;> simp [Start.text, Text.joinPieces, hc]

/-! #### Without the last component -/

section

variable {pieces : List (List Char)}

theorem trimPieces_dropLast_isPrefix (pieces : List (List Char)) :
    trimPieces (trimPieces pieces).dropLast <+: pieces :=
  (trimPieces_isPrefix _).trans ((List.dropLast_prefix _).trans (trimPieces_isPrefix _))

theorem head?_trimPieces_dropLast (pieces : List (List Char)) :
    trimPieces (trimPieces pieces).dropLast = [] ∨
      (trimPieces (trimPieces pieces).dropLast).head? = pieces.head? := by
  obtain ⟨after, hafter⟩ := trimPieces_dropLast_isPrefix pieces
  cases h : trimPieces (trimPieces pieces).dropLast with
  | nil => exact .inl rfl
  | cons piece rest => exact .inr (by rw [← hafter, h]; rfl)

theorem filter_trimPieces_dropLast (h : trimPieces pieces ≠ []) :
    (trimPieces (trimPieces pieces).dropLast).filter isComponent ++ [(trimPieces pieces).getLast h] =
      pieces.filter isComponent := by
  have whole := congrArg (List.filter isComponent) (List.dropLast_concat_getLast h)
  rwa [List.filter_append, filter_trimPieces pieces,
    List.filter_cons_of_pos (isComponent_getLast_trimPieces h), List.filter_nil,
    ← filter_trimPieces] at whole

end

/-- The parent of a path has one component less, and starts alike. -/
theorem components_of_parent? {p q : String} (h : parent? p = some q) (hq : q ≠ "") :
    (∃ last, components p = components q ++ [last]) ∧ isAbsolute q = isAbsolute p := by
  obtain ⟨free, hcurrent, hbare, hroot⟩ := split_pieces p.toList
  rw [parent?] at h
  rcases hsplit : split p.toList with ⟨start, pieces⟩
  rw [hsplit] at h free hcurrent hbare hroot
  simp only at h free hcurrent hbare hroot
  split at h
  · split at h
    · exact absurd (Option.some.inj h).symm hq
    · cases h
  rename_i hkept
  obtain rfl := (Option.some.inj h).symm
  have free' : ∀ piece ∈ trimPieces (trimPieces pieces).dropLast, '/' ∉ piece :=
    fun piece hmem => free piece ((trimPieces_dropLast_isPrefix pieces).subset hmem)
  have hhead := head?_trimPieces_dropLast pieces
  constructor
  · refine ⟨String.ofList ((trimPieces pieces).getLast hkept), ?_⟩
    rw [components, hsplit, components_eq, String.toList_ofList,
      filter_pieces_append free' fun hstart => hhead.imp_right (·.trans (hcurrent hstart)),
      ← filter_trimPieces_dropLast hkept, List.map_append]
    rfl
  · simp only [isAbsolute, String.toList_ofList, decide_eq_decide, ← hroot]
    refine head?_text_append_iff free' fun hstart => ?_
    have hp : p.toList ≠ [] := by
      intro hp
      rw [hp] at hsplit
      cases hsplit
      exact hkept rfl
    obtain hnil | hsame := hhead
    · simp [hnil]
    · rw [hsame]
      exact hbare hstart hp

end Path

end HouseRules
