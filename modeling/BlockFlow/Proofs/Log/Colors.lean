import Mathlib
import BlockFlow.Log.Format

/-! Colours in the log. They only put escape codes between the characters of a line: without the
codes, a coloured line is the plain one. -/

namespace BlockFlow.Log

/-- The character that every code starts with. -/
def escape : Char := '\x1b'

/-- The characters of a text from the position `skip` on, less the occurrences of `part` behind
that position. -/
def takeOut (part : List Char) : Nat → List Char → List Char
  | _, [] => []
  | skip + 1, _ :: rest => takeOut part skip rest
  | 0, c :: rest =>
    if part.isPrefixOf (c :: rest) then takeOut part (part.length - 1) rest
    else c :: takeOut part 0 rest

/-- A text without the occurrences of `part`, taken out from left to right. -/
def deleteAll (part text : List Char) : List Char := takeOut part 0 text

/-- A text without the codes of some colours, taken out colour by colour. -/
def withoutCodes (colors : List Color) (text : String) : String :=
  String.ofList (colors.foldl (fun chars color => deleteAll color.code chars) text.toList)

/-! ### Codes between characters -/

/-- `painted` is `text` with codes of some colours between its characters, none of which starts a
code. -/
inductive Painted (p : Color → Prop) : List Char → List Char → Prop
  | nil : Painted p [] []
  | char {c : Char} {text painted : List Char} (hc : c ≠ escape) (h : Painted p text painted) :
      Painted p (c :: text) (c :: painted)
  | code {color : Color} {text painted : List Char} (hp : p color) (h : Painted p text painted) :
      Painted p text (color.code ++ painted)

variable {p : Color → Prop} {text painted old new : List Char}

/-- The characters of a code behind its first one. -/
def Color.tail (c : Color) : List Char := '[' :: Nat.toDigits 10 c.number ++ ['m']

theorem Color.code_eq (c : Color) : c.code = escape :: c.tail := rfl

theorem Color.escape_not_mem_tail (c : Color) : escape ∉ c.tail := by
  cases c <;> decide

theorem Color.eq_of_prefix {c d : Color} (h : c.code <+: d.code) : c = d := by
  revert h
  cases c <;> cases d <;> decide

namespace Painted

theorem refl (h : escape ∉ text) : Painted p text text := by
  induction text with
  | nil => exact .nil
  | cons c text ih =>
    rw [List.mem_cons, not_or] at h
    exact .char (Ne.symm h.1) (ih h.2)

theorem append {text' painted' : List Char} (h : Painted p text painted)
    (h' : Painted p text' painted') : Painted p (text ++ text') (painted ++ painted') := by
  induction h with
  | nil => exact h'
  | char hc _ ih => exact .char hc ih
  | code hp _ ih =>
    rw [List.append_assoc]
    exact .code hp ih

theorem paint {color : Color} (hcolor : p color) (hreset : p .reset) (h : escape ∉ text) :
    Painted p text (color.paint text) := by
  have hend : Painted p [] (Color.reset.code ++ []) := .code hreset .nil
  have hall := Painted.code hcolor ((refl h).append hend)
  simpa [Color.paint] using hall

/-- Characters in front that start no code are in the text itself. -/
theorem of_append {front rest : List Char} (hfront : escape ∉ front)
    (h : Painted p text (front ++ rest)) :
    ∃ text', text = front ++ text' ∧ Painted p text' rest := by
  induction front generalizing text with
  | nil => exact ⟨text, rfl, h⟩
  | cons c front ih =>
    rw [List.mem_cons, not_or] at hfront
    generalize hpainted : c :: front ++ rest = painted at h
    cases h with
    | nil => cases hpainted
    | char hc h =>
      obtain ⟨rfl, rfl⟩ := List.cons.inj hpainted
      obtain ⟨text', rfl, h'⟩ := ih hfront.2 h
      exact ⟨text', rfl, h'⟩
    | code hp h =>
      rw [Color.code_eq] at hpainted
      exact absurd (List.cons.inj hpainted).1.symm hfront.1

end Painted

/-! ### Replacing -/

theorem replaceFirst_at_start {c : Char} (h : old <+: c :: text) :
    replaceFirst old new (c :: text) = new ++ (c :: text).drop old.length :=
  if_pos (List.isPrefixOf_iff_prefix.mpr h)

theorem replaceFirst_later {c : Char} (h : ¬ old <+: c :: text) :
    replaceFirst old new (c :: text) = c :: replaceFirst old new text :=
  if_neg fun hprefix => h (List.isPrefixOf_iff_prefix.mp hprefix)

/-- What starts with a character that a text lacks begins behind that text. -/
theorem replaceFirst_append {first : Char} {others front : List Char} (h : first ∉ front)
    (rest : List Char) : replaceFirst (first :: others) new (front ++ rest) =
      front ++ replaceFirst (first :: others) new rest := by
  induction front with
  | nil => rfl
  | cons c front ih =>
    rw [List.mem_cons, not_or] at h
    rw [List.cons_append, replaceFirst_later, ih h.2, List.cons_append]
    exact fun hprefix => h.1 (List.cons_prefix_cons.mp hprefix).1

/-- Painting the first occurrence of a part puts only codes in, if no code can hold its start. -/
theorem Painted.replaceFirst {first : Char} {others : List Char} (h : Painted p text painted)
    (hfirst : ∀ color : Color, first ∉ color.code) (hold : escape ∉ first :: others)
    (hnew : Painted p (first :: others) new) :
    Painted p text (replaceFirst (first :: others) new painted) := by
  induction h with
  | nil => exact .nil
  | @char c text painted hc h ih =>
    by_cases hprefix : first :: others <+: c :: painted
    · rw [replaceFirst_at_start hprefix]
      obtain ⟨rest, hrest⟩ := hprefix
      obtain ⟨text', htext, h'⟩ := of_append hold (hrest ▸ Painted.char hc h)
      rw [htext, ← hrest, List.drop_left]
      exact hnew.append h'
    · rw [replaceFirst_later hprefix]
      exact .char hc ih
  | @code color text painted hp _ ih =>
    rw [replaceFirst_append (hfirst color)]
    exact .code hp ih

theorem replaceFirst_of_infix (new : List Char) (h : old <:+: text) : ∃ before after,
    text = before ++ old ++ after ∧ replaceFirst old new text = before ++ new ++ after := by
  induction text with
  | nil =>
    obtain rfl := List.eq_nil_of_infix_nil h
    exact ⟨[], [], rfl, by simp [replaceFirst]⟩
  | cons c text ih =>
    by_cases hprefix : old <+: c :: text
    · rw [replaceFirst_at_start hprefix]
      obtain ⟨rest, hrest⟩ := hprefix
      refine ⟨[], rest, hrest.symm, ?_⟩
      rw [← hrest, List.drop_left, List.nil_append]
    · rw [replaceFirst_later hprefix]
      obtain ⟨before, after, htext, hreplaced⟩ :=
        ih ((List.infix_cons_iff.mp h).resolve_left hprefix)
      exact ⟨c :: before, after, congrArg (c :: ·) htext, congrArg (c :: ·) hreplaced⟩

theorem replaceFirst_of_not_infix (h : ¬ old <:+: text) : replaceFirst old new text = text := by
  induction text with
  | nil =>
    have hold : old ≠ [] := fun hnil => h (hnil ▸ List.nil_infix)
    simp [replaceFirst, hold]
  | cons c text ih =>
    rw [List.infix_cons_iff, not_or] at h
    rw [replaceFirst_later h.1, ih h.2]

theorem prefix_of_append_escape (front : List Char) {back : List Char} (hold : escape ∉ old)
    (h : old <+: front ++ escape :: back) : old <+: front := by
  rcases List.prefix_or_prefix_of_prefix h (List.prefix_append front _) with hfront | ⟨rest, rfl⟩
  · exact hfront
  · cases rest with
    | nil => simp
    | cons c rest =>
      obtain ⟨rfl, -⟩ := List.cons_prefix_cons.mp ((List.prefix_append_right_inj front).mp h)
      simp at hold

/-- What holds no escape character occurs in front of one or behind it. -/
theorem replaceFirst_around (hold : escape ∉ old) (hne : old ≠ []) (new front back : List Char) :
    replaceFirst old new (front ++ escape :: back) = replaceFirst old new front ++ escape :: back ∨
      replaceFirst old new (front ++ escape :: back) =
        front ++ escape :: replaceFirst old new back := by
  induction front with
  | nil =>
    right
    refine replaceFirst_later fun hprefix => hne (List.prefix_nil.mp ?_)
    exact prefix_of_append_escape [] hold hprefix
  | cons c front ih =>
    rw [List.cons_append]
    by_cases hprefix : old <+: c :: front
    · left
      have hlonger : old <+: c :: (front ++ escape :: back) :=
        hprefix.trans (List.prefix_append (c :: front) _)
      rw [replaceFirst_at_start hlonger, replaceFirst_at_start hprefix, ← List.cons_append,
        List.drop_append_of_le_length hprefix.length_le, List.append_assoc]
    · have hlonger : ¬ old <+: c :: (front ++ escape :: back) :=
        fun h => hprefix (prefix_of_append_escape (c :: front) hold h)
      rw [replaceFirst_later hlonger, replaceFirst_later hprefix]
      exact ih.imp (congrArg (c :: ·)) (congrArg (c :: ·))

/-! ### Times -/

theorem escape_not_mem_take {shape : List Char} (hshape : escape ∉ shape)
    (h : matchesShape shape text = true) : escape ∉ text.take shape.length := by
  induction shape generalizing text with
  | nil => simp
  | cons s shape ih =>
    rw [List.mem_cons, not_or] at hshape
    cases text with
    | nil => cases h
    | cons c rest =>
      rw [matchesShape, Bool.and_eq_true] at h
      rw [List.length_cons, List.take_succ_cons, List.mem_cons, not_or]
      refine ⟨?_, ih hshape.2 h.2⟩
      rintro rfl
      have hc := h.1
      split at hc
      · exact absurd hc (by decide)
      · exact hshape.1 (eq_of_beq hc)

theorem Painted.paintTime (h : Painted p text painted) (hcyan : p .cyan) (hreset : p .reset) :
    Painted p text (paintTime painted) := by
  unfold Log.paintTime
  split
  · next hshape =>
    have hfront := escape_not_mem_take (by decide) hshape
    rw [← List.take_append_drop timeShape.length painted] at h
    obtain ⟨text', rfl, h'⟩ := of_append hfront h
    exact (Painted.paint hcyan hreset hfront).append h'
  · exact h

theorem matchesShape_append_escape {shape : List Char} (hshape : escape ∉ shape)
    (front back : List Char) :
    matchesShape shape (front ++ escape :: back) = matchesShape shape front := by
  induction shape generalizing front with
  | nil => simp [matchesShape]
  | cons s shape ih =>
    rw [List.mem_cons, not_or] at hshape
    cases front with
    | nil =>
      have hs : (if s = '9' then escape.isDigit else escape == s) = false := by
        split
        · rfl
        · exact beq_false_of_ne hshape.1
      rw [List.nil_append, matchesShape, matchesShape, hs, Bool.false_and]
    | cons c front =>
      simp only [List.cons_append, matchesShape, ih hshape.2]

theorem length_le_of_matchesShape {shape : List Char} (h : matchesShape shape text = true) :
    shape.length ≤ text.length := by
  induction shape generalizing text with
  | nil => exact Nat.zero_le _
  | cons s shape ih =>
    cases text with
    | nil => cases h
    | cons c rest =>
      rw [matchesShape, Bool.and_eq_true] at h
      exact Nat.succ_le_succ (ih h.2)

/-- A time lies in front of the first code. -/
theorem paintTime_append_escape (front back : List Char) :
    paintTime (front ++ escape :: back) = paintTime front ++ escape :: back := by
  have hshape : escape ∉ timeShape := by decide
  unfold paintTime
  rw [matchesShape_append_escape hshape]
  split
  · next h =>
    have hle := length_le_of_matchesShape h
    rw [List.take_append_of_le_length hle, List.drop_append_of_le_length hle, List.append_assoc]
  · rfl

/-! ### Taking codes out -/

theorem takeOut_skip (part front rest : List Char) :
    takeOut part front.length (front ++ rest) = takeOut part 0 rest := by
  induction front with
  | nil => rfl
  | cons c front ih => exact ih

theorem deleteAll_append {first : Char} {others front : List Char} (h : first ∉ front)
    (rest : List Char) :
    deleteAll (first :: others) (front ++ rest) = front ++ deleteAll (first :: others) rest := by
  induction front with
  | nil => rfl
  | cons c front ih =>
    rw [List.mem_cons, not_or] at h
    have hprefix : (first :: others).isPrefixOf (c :: (front ++ rest)) = false := by
      simp [List.isPrefixOf, h.1]
    rw [List.cons_append, deleteAll, takeOut, hprefix, if_neg (by decide), List.cons_append]
    exact congrArg _ (ih h.2)

theorem Color.deleteAll_code (c : Color) (rest : List Char) :
    deleteAll c.code (c.code ++ rest) = deleteAll c.code rest := by
  have hprefix : c.code.isPrefixOf (escape :: (c.tail ++ rest)) = true :=
    List.isPrefixOf_iff_prefix.mpr (List.prefix_append _ rest)
  change takeOut c.code 0 (escape :: (c.tail ++ rest)) = _
  rw [takeOut, if_pos hprefix]
  exact takeOut_skip c.code c.tail rest

theorem Color.deleteAll_other {c d : Color} (h : d ≠ c) (rest : List Char) :
    deleteAll c.code (d.code ++ rest) = d.code ++ deleteAll c.code rest := by
  have hprefix : ¬ c.code.isPrefixOf (escape :: (d.tail ++ rest)) = true := by
    intro hc
    have hcode : c.code <+: d.code ++ rest := List.isPrefixOf_iff_prefix.mp hc
    rcases List.prefix_or_prefix_of_prefix hcode (List.prefix_append _ rest) with hcd | hdc
    · exact h (Color.eq_of_prefix hcd).symm
    · exact h (Color.eq_of_prefix hdc)
  change takeOut c.code 0 (escape :: (d.tail ++ rest)) = _
  rw [takeOut, if_neg hprefix]
  exact congrArg (escape :: ·) (deleteAll_append d.escape_not_mem_tail rest)

namespace Painted

/-- Taking out the codes of one colour leaves those of the others. -/
theorem deleteAll (h : Painted p text painted) (color : Color) :
    Painted (fun c => p c ∧ c ≠ color) text (deleteAll color.code painted) := by
  induction h with
  | nil => exact .nil
  | @char c text painted hc _ ih =>
    have hfront : escape ∉ [c] := by simpa using Ne.symm hc
    have hdelete : Log.deleteAll color.code (c :: painted) =
        c :: Log.deleteAll color.code painted := deleteAll_append hfront painted
    rw [hdelete]
    exact .char hc ih
  | @code c text painted hp _ ih =>
    by_cases hc : c = color
    · subst hc
      rwa [Color.deleteAll_code]
    · rw [Color.deleteAll_other hc]
      exact .code ⟨hp, hc⟩ ih

theorem foldl_deleteAll (h : Painted p text painted) (colors : List Color) :
    Painted (fun c => p c ∧ c ∉ colors) text
      (colors.foldl (fun chars color => Log.deleteAll color.code chars) painted) := by
  induction colors generalizing p painted with
  | nil => simpa using h
  | cons color colors ih =>
    have hrest := ih (h.deleteAll color)
    simpa only [List.foldl_cons, List.mem_cons, not_or, and_assoc] using hrest

theorem eq_of_none (h : Painted p text painted) (hp : ∀ color, ¬ p color) : painted = text := by
  induction h with
  | nil => rfl
  | char _ _ ih => rw [ih]
  | code hc _ _ => exact absurd hc (hp _)

end Painted

/-! ### Lines of the log -/

/-- A text in which no code starts. -/
def Unescaped (text : String) : Prop := escape ∉ text.toList

instance (text : String) : Decidable (Unescaped text) :=
  inferInstanceAs (Decidable (escape ∉ text.toList))

theorem unescaped_append {s t : String} : Unescaped (s ++ t) ↔ Unescaped s ∧ Unescaped t := by
  simp [Unescaped]

theorem isDigit_of_mem_decimal {width n : Nat} {c : Char} (h : c ∈ (decimal width n).toList) :
    c.isDigit = true := by
  rw [decimal, String.toList_ofList, padded] at h
  rcases List.mem_append.mp h with h | h
  · rw [List.eq_of_mem_replicate h]
    rfl
  · exact Nat.isDigit_of_mem_toDigits (by decide) (by decide) h

theorem mem_toString {n : Int} {c : Char} (h : c ∈ (toString n).toList) :
    c = '-' ∨ c.isDigit = true := by
  have hrepr {m : Nat} (h : c ∈ (Nat.repr m).toList) : c.isDigit = true := by
    rw [Nat.repr, String.toList_ofList] at h
    exact Nat.isDigit_of_mem_toDigits (by decide) (by decide) h
  cases n with
  | ofNat m => exact .inr (hrepr h)
  | negSucc m =>
    change c ∈ ("-" ++ Nat.repr (m + 1)).toList at h
    rw [String.toList_append] at h
    exact (List.mem_append.mp h).imp List.mem_singleton.mp hrepr

theorem unescaped_decimal (width n : Nat) : Unescaped (decimal width n) :=
  fun h => absurd (isDigit_of_mem_decimal h) (by decide)

theorem unescaped_toString (n : Int) : Unescaped (toString n) :=
  fun h => absurd (mem_toString h) (by decide)

theorem unescaped_logText (t : DateTime) : Unescaped t.logText := by
  have hmarks : Unescaped "-" ∧ Unescaped " " ∧ Unescaped ":" := by decide
  simp only [DateTime.logText, DateTime.text, unescaped_append, unescaped_decimal,
    unescaped_toString, hmarks, and_self]

/-- The names of the levels that have one of their own. -/
def Level.names : List String := ["NOTSET", "DEBUG", "INFO", "WARNING", "ERROR", "CRITICAL"]

theorem Level.name_cases (level : Level) :
    level.name ∈ Level.names ∨ level.name = "Level " ++ toString level := by
  unfold Level.name
  split_ifs <;> simp [Level.names]

/-- The name of a level starts with a capital letter, and no code starts in it. -/
theorem Level.name_spec (level : Level) :
    (∃ first others, level.name.toList = first :: others ∧ first.isUpper = true) ∧
      Unescaped level.name := by
  rcases Level.name_cases level with h | h
  · have hnames : ∀ name ∈ Level.names,
        (name.toList.head?.any Char.isUpper) = true ∧ Unescaped name := by decide
    obtain ⟨hhead, hname⟩ := hnames _ h
    obtain ⟨first, hfirst, hupper⟩ := Option.any_eq_true _ _ |>.mp hhead
    obtain ⟨others, hothers⟩ := List.head?_eq_some_iff.mp hfirst
    exact ⟨⟨first, others, hothers, hupper⟩, hname⟩
  · rw [h]
    refine ⟨⟨'L', "evel ".toList ++ (toString level).toList, ?_, by decide⟩, ?_⟩
    · rw [String.toList_append]
      rfl
    · exact unescaped_append.mpr ⟨by decide, unescaped_toString level⟩

theorem Color.not_mem_code {c : Char} (h : c = ' ' ∨ c.isUpper = true) (color : Color) :
    c ∉ color.code := by
  have hcodes : color.code.all (fun d => d != ' ' && !d.isUpper) = true := by
    cases color <;> rfl
  intro hc
  have hchar := List.all_eq_true.mp hcodes c hc
  rcases h with rfl | h
  · cases hchar
  · simp [h] at hchar

theorem escape_not_mem_pattern {logger : String} (h : Unescaped logger) :
    escape ∉ ' ' :: (logger.toList ++ " - ".toList) := by
  have hmarks : escape ≠ ' ' ∧ escape ∉ " - ".toList := by decide
  simp only [List.mem_cons, List.mem_append, not_or]
  exact ⟨hmarks.1, h, hmarks.2⟩

/-- Colouring a line only puts codes in. -/
theorem colorize_painted {e : Entry} (hlogger : Unescaped e.logger) (h : escape ∉ text) :
    Painted (fun _ => True) text (colorize e text) := by
  obtain ⟨⟨first, others, hname, hupper⟩, hlevel⟩ := Level.name_spec e.level
  rw [Unescaped, hname] at hlevel
  have hshown : Painted (fun _ => True) (' ' :: (e.logger.toList ++ " - ".toList))
      (' ' :: (Color.blue.paint e.logger.toList ++ " - ".toList)) :=
    .char (by decide) ((Painted.paint trivial trivial hlogger).append (.refl (by decide)))
  simp only [colorize, hname]
  refine Painted.replaceFirst ?_ (Color.not_mem_code (.inl rfl))
    (escape_not_mem_pattern hlogger) hshown
  refine Painted.paintTime ?_ trivial trivial
  exact (Painted.refl h).replaceFirst (Color.not_mem_code (.inr hupper)) hlevel
    (Painted.paint trivial trivial hlevel)

theorem Level.count_space_name (level : Level) : level.name.toList.count ' ' ≤ 1 := by
  rcases Level.name_cases level with h | h
  · have hnames : ∀ name ∈ Level.names, name.toList.count ' ' ≤ 1 := by decide
    exact hnames _ h
  · have hnumber : (toString level).toList.count ' ' = 0 :=
      List.count_eq_zero.mpr fun hspace => absurd (mem_toString hspace) (by decide)
    have hword : "Level ".toList.count ' ' = 1 := by decide
    rw [h, String.toList_append, List.count_append, hnumber, hword]

/-- The name of a logger between its separators has more spaces than the name of a level. -/
theorem not_infix_level (e : Entry) (color : Color) :
    ¬ ' ' :: (e.logger.toList ++ " - ".toList) <:+: color.tail ++ e.level.name.toList := by
  intro h
  have hcount := h.sublist.count_le ' '
  have hcolor : color.tail.count ' ' = 0 := by cases color <;> rfl
  have hmark : " - ".toList.count ' ' = 2 := by decide
  have hlevel := Level.count_space_name e.level
  rw [List.count_cons, List.count_append, List.count_append, hcolor, hmark] at hcount
  simp only [beq_self_eq_true, if_true] at hcount
  omega

/-- A level in its colour stays so while the rest of the line is coloured. -/
theorem paint_infix_colorize {e : Entry} (hlogger : Unescaped e.logger)
    (h : e.level.name.toList <:+: text) :
    (Color.ofLevel e.level).paint e.level.name.toList <:+: colorize e text := by
  have hpattern := escape_not_mem_pattern hlogger
  have hmiddle := not_infix_level e (Color.ofLevel e.level)
  have hreset : ' ' ∉ Color.reset.tail := by decide
  obtain ⟨before, after, -, hlevel⟩ :=
    replaceFirst_of_infix ((Color.ofLevel e.level).paint e.level.name.toList) h
  rw [colorize, hlevel]
  generalize e.level.name.toList = name at hmiddle ⊢
  generalize Color.ofLevel e.level = color at hmiddle ⊢
  -- the codes of the level cut the line into three parts, and what stands in the middle stays
  have hparts (front : List Char) : front ++ color.paint name ++ after =
      front ++ escape :: (color.tail ++ name ++ escape :: (Color.reset.tail ++ after)) := by
    simp [Color.paint, Color.code_eq]
  have hshown (front back : List Char) : color.paint name <:+:
      front ++ escape :: (color.tail ++ name ++ escape :: (Color.reset.tail ++ back)) :=
    ⟨front, back, by simp [Color.paint, Color.code_eq]⟩
  generalize ' ' :: Color.blue.paint e.logger.toList ++ " - ".toList = new
  rw [hparts, paintTime_append_escape, List.cons_append]
  rcases replaceFirst_around hpattern (by simp) new (paintTime before)
    (color.tail ++ name ++ escape :: (Color.reset.tail ++ after)) with hr | hr
  · rw [hr]
    exact hshown _ _
  rcases replaceFirst_around hpattern (by simp) new (color.tail ++ name)
    (Color.reset.tail ++ after) with hr' | hr'
  · rw [hr, hr', replaceFirst_of_not_infix hmiddle]
    exact hshown _ _
  · rw [hr, hr', replaceFirst_append hreset]
    exact hshown _ _

theorem unescaped_line (layout : Layout) {r : Record} (hlogger : Unescaped r.entry.logger)
    (hmessage : Unescaped r.entry.message) : Unescaped (layout.line r) := by
  have hmark : Unescaped " - " := by decide
  have hlevel := (Level.name_spec r.entry.level).2
  cases layout <;>
    simp only [Layout.line, unescaped_append, unescaped_logText, hlogger, hmessage, hmark, hlevel,
      and_self]

theorem unescaped_text (layout : Layout) {r : Record} (hlogger : Unescaped r.entry.logger)
    (hmessage : Unescaped r.entry.message) (hexception : ∀ e ∈ r.exception, Unescaped e) :
    Unescaped (layout.text r) := by
  have hline := unescaped_line layout hlogger hmessage
  unfold Layout.text
  cases he : r.exception.filter (· ≠ "") with
  | none => exact hline
  | some e =>
    have hshown : Unescaped e := hexception e (Option.eq_some_of_filter_eq_some he)
    simp only [unescaped_append]
    refine ⟨⟨hline, ?_⟩, hshown⟩
    split <;> decide

theorem name_infix_text (layout : Layout) (r : Record) :
    r.entry.level.name.toList <:+: (layout.text r).toList := by
  have hline : r.entry.level.name.toList <:+: (layout.line r).toList := by
    cases layout with
    | simple =>
      refine ⟨[], (" - " ++ r.entry.message).toList, ?_⟩
      simp [Layout.line]
    | detailed =>
      refine ⟨((DateTime.ofSeconds r.created).logText ++ " - " ++ r.entry.logger ++ " - ").toList,
        (" - " ++ r.entry.message).toList, ?_⟩
      simp [Layout.line]
  unfold Layout.text
  split
  · exact hline
  · rw [String.append_assoc, String.toList_append]
    exact hline.trans (List.prefix_append _ _).isInfix

/-- Colours only put codes into a line. Without the codes, taken out colour by colour in any order,
the coloured text of a record is the plain one, whatever the level and wherever the name of the
level or of the logger occurs. And the name of the level is there in its colour. -/
theorem colored_text_without_codes (layout : Layout) (r : Record)
    (hlogger : Unescaped r.entry.logger) (hmessage : Unescaped r.entry.message)
    (hexception : ∀ e ∈ r.exception, Unescaped e) :
    (∀ colors : List Color, (∀ color, color ∈ colors) →
      withoutCodes colors ((Formatter.colored layout).text r) = (Formatter.plain layout).text r) ∧
    (Color.ofLevel r.entry.level).paint r.entry.level.name.toList <:+:
      ((Formatter.colored layout).text r).toList := by
  have htext := unescaped_text layout hlogger hmessage hexception
  simp only [Formatter.text, String.toList_ofList, withoutCodes]
  constructor
  · intro colors hcolors
    have hpainted := (colorize_painted hlogger htext).foldl_deleteAll colors
    rw [hpainted.eq_of_none fun color hcolor => hcolor.2 (hcolors color), String.ofList_toList]
  · exact paint_infix_colorize hlogger (name_infix_text layout r)

/-- A logger named like the level, and a message that holds both names, one between separators. -/
def namesake : Record :=
  ⟨⟨Level.info, "INFO", "2023-11-14 22:13:20 - INFO - INFO"⟩, 1700000000,
    some "ValueError: INFO - "⟩

theorem namesake_without_codes :
    withoutCodes [.gray, .cyan, .magenta, .blue, .yellow, .green, .red, .reset]
      ((Formatter.colored .detailed).text namesake) = (Formatter.plain .detailed).text namesake ∧
    Color.green.paint "INFO".toList <:+: ((Formatter.colored .detailed).text namesake).toList := by
  obtain ⟨hcodes, hlevel⟩ := colored_text_without_codes .detailed namesake (by decide) (by decide)
    (by decide)
  exact ⟨hcodes _ (by intro color; cases color <;> decide), hlevel⟩

end BlockFlow.Log
