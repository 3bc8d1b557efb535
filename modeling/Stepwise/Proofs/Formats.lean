import Mathlib.Data.List.DropRight
import Stepwise.Proofs.Conversions

/-!
# Formats

A format is literal texts, with their percent signs doubled, and conversions. It prints the literal
texts and what the conversions make of the arguments, each conversion taking the next one
(`format_segments`). It fails only if a conversion asks for more than can be held, or an argument
has no display.
-/

namespace Stepwise.Printf

open Number Text

/-! ### Scanning and filling from left to right -/

/-- Pieces found earlier stand in front of the others, and have no effect on them. -/
theorem piecesWith_eq (fuel : Nat) (before : List Piece) (t : Text) :
    piecesWith fuel before t = before.reverse ++ piecesWith fuel [] t := by
  induction fuel generalizing before t with
  | zero => simp [piecesWith]
  | succ fuel ih =>
    unfold piecesWith
    dsimp only
    split
    · simp
    · split
      · rw [ih (_ :: _ :: before), ih [_, _]]
        simp
      · rw [ih (_ :: _ :: before), ih [_, _]]
        simp

/-- The pieces of a text, and those of the text with one more code point that stays. -/
theorem piecesWith_plain (fuel : Nat) (t : Text) :
    ∃ more, piecesWith (fuel + 1) [] t = .text (t.takeWhile Format.isPlain) :: more ∧
      ∀ p, Format.isPlain p = true →
        piecesWith (fuel + 1) [] (p :: t) = .text (p :: t.takeWhile Format.isPlain) :: more := by
  unfold piecesWith
  dsimp only
  cases hdrop : t.dropWhile Format.isPlain with
  | nil =>
    refine ⟨[], rfl, fun p hp => ?_⟩
    simp [hp, hdrop]
  | cons sign rest =>
    rcases hconv : conversion? rest with _ | ⟨conv, behind⟩
    · refine ⟨.text [sign] :: piecesWith fuel [] rest, ?_, fun p hp => ?_⟩
      · simp [hconv, piecesWith_eq fuel (_ :: _)]
      · simp [hp, hdrop, hconv, piecesWith_eq fuel (_ :: _)]
    · refine ⟨.conversion conv :: piecesWith fuel [] behind, ?_, fun p hp => ?_⟩
      · simp [hconv, piecesWith_eq fuel (_ :: _)]
      · simp [hp, hdrop, hconv, piecesWith_eq fuel (_ :: _)]

theorem fill_eq (h : Heap) (before : List Text) (ps : List Piece) (args : List Value) :
    fill h before ps args = (before.reverse.flatten ++ ·) <$> fill h [] ps args := by
  induction ps generalizing before args with
  | nil => simp [fill]
  | cons piece ps ih =>
    cases piece with
    | text t =>
      rw [fill, fill, ih (t :: before), ih [t]]
      simp
    | conversion conv =>
      rw [fill, fill]
      split_ifs
      · rw [ih (_ :: before), ih [_]]
        simp
      · simp only [map_bind]
        refine bind_congr fun shown => ?_
        rw [ih (_ :: before), ih [_]]
        simp

/-- What a format prints, scanned with this fuel. -/
def printed (h : Heap) (fuel : Nat) (t : Text) (args : List Value) : Except Fault Text :=
  fill h [] (piecesWith fuel [] t) args

section Printed

variable (h : Heap) (fuel : Nat) (args : List Value)

theorem printed_plain {p : CodePoint} (hp : Format.isPlain p = true) (t : Text) :
    printed h (fuel + 1) (p :: t) args = (p :: ·) <$> printed h (fuel + 1) t args := by
  obtain ⟨more, ht, hcons⟩ := piecesWith_plain fuel t
  rw [printed, printed, hcons p hp, ht, fill, fill, fill_eq h [_], fill_eq h [_]]
  simp

/-- A conversion takes the next argument, or zero if there is none. -/
theorem printed_conversion {conv : Conversion} {t rest : Text}
    (hconv : conversion? t = some (conv, rest)) :
    printed h (fuel + 1) (CodePoint.ofChar '%' :: t) args =
      if conv.letter = '%' then (CodePoint.ofChar '%' :: ·) <$> printed h fuel rest args
      else substitute h conv (args.headD (.int 0)) >>= fun shown =>
        (shown ++ ·) <$> printed h fuel rest args.tail := by
  have hpieces : piecesWith (fuel + 1) [] (CodePoint.ofChar '%' :: t) =
      .text [] :: .conversion conv :: piecesWith fuel [] rest := by
    have hdrop : (CodePoint.ofChar '%' :: t).dropWhile Format.isPlain = CodePoint.ofChar '%' :: t :=
      List.dropWhile_cons_of_neg (by decide)
    have htake : (CodePoint.ofChar '%' :: t).takeWhile Format.isPlain = [] :=
      List.takeWhile_cons_of_neg (by decide)
    simp [piecesWith, hdrop, htake, hconv, piecesWith_eq fuel (_ :: _)]
  rw [printed, hpieces, fill, fill]
  by_cases hl : conv.letter = '%'
  · rw [if_pos (by simpa using hl), if_pos hl, fill_eq h (_ :: _)]
    rfl
  · rw [if_neg (by simpa using hl), if_neg hl]
    refine bind_congr fun shown => ?_
    rw [fill_eq h (_ :: _)]
    simp [printed]

end Printed

/-! ### Segments -/

/-- A segment of a format. -/
inductive Segment
  | literal (t : Text)
  | directive (d : Directive)

namespace Segment

/-- The segment in a format, with every percent sign of a literal doubled. -/
def text : Segment → Text
  | literal t => t.flatMap fun p => if p = CodePoint.ofChar '%' then [p, p] else [p]
  | directive d => d.text

/-- The segment takes an argument. -/
def takes : Segment → Bool
  | literal _ => false
  | directive d => d.letter != '%'

end Segment

/-- The scan of a doubled percent sign. -/
theorem conversion?_percent (rest : Text) :
    conversion? (CodePoint.ofChar '%' :: rest) = some (⟨[], '%'⟩, rest) :=
  Directive.conversion?_options
    ⟨[], [], none, [], '%', by simp, by simp, by simp, by simp, by decide⟩ rest

/-- Literal text is printed as it is. -/
theorem printed_literal (h : Heap) (args : List Value) (rest t : Text) {fuel : Nat}
    (hfuel : ((Segment.literal t).text ++ rest).length < fuel) :
    ∃ left, rest.length < left ∧ printed h fuel ((Segment.literal t).text ++ rest) args =
      (t ++ ·) <$> printed h left rest args := by
  induction t generalizing fuel with
  | nil => exact ⟨fuel, hfuel, by simp [Segment.text]⟩
  | cons p t ih =>
    obtain ⟨fuel, rfl⟩ : ∃ f, fuel = f + 1 := ⟨fuel - 1, by omega⟩
    by_cases hp : p = CodePoint.ofChar '%'
    · have htext : (Segment.literal (p :: t)).text ++ rest =
          CodePoint.ofChar '%' :: CodePoint.ofChar '%' :: ((Segment.literal t).text ++ rest) := by
        simp [Segment.text, hp]
      rw [htext, List.length_cons, List.length_cons] at hfuel
      obtain ⟨left, hleft, hprinted⟩ := ih (show _ < fuel by omega)
      refine ⟨left, hleft, ?_⟩
      rw [htext, printed_conversion h fuel args (conversion?_percent _), if_pos rfl, hprinted, hp]
      simp
    · have htext : (Segment.literal (p :: t)).text ++ rest =
          p :: ((Segment.literal t).text ++ rest) := by
        simp [Segment.text, hp]
      rw [htext, List.length_cons] at hfuel
      obtain ⟨left, hleft, hprinted⟩ := ih (show _ < fuel + 1 by omega)
      refine ⟨left, hleft, ?_⟩
      rw [htext, printed_plain h fuel args (by simpa [Format.isPlain] using hp), hprinted]
      simp

/-- A directive prints a percent sign, or the next argument as its options say. -/
theorem printed_directive (h : Heap) (args : List Value) (rest : Text) (d : Directive) {fuel : Nat}
    (hfuel : ((Segment.directive d).text ++ rest).length < fuel) :
    ∃ left, rest.length < left ∧ printed h fuel ((Segment.directive d).text ++ rest) args =
      if d.letter = '%' then (CodePoint.ofChar '%' :: ·) <$> printed h left rest args
      else substitute h ⟨d.options, d.letter⟩ (args.headD (.int 0)) >>= fun shown =>
        (shown ++ ·) <$> printed h left rest args.tail := by
  obtain ⟨fuel, rfl⟩ : ∃ f, fuel = f + 1 := ⟨fuel - 1, by omega⟩
  have htext : (Segment.directive d).text ++ rest =
      CodePoint.ofChar '%' :: (d.options ++ (d.ending ++ rest)) := by
    simp [Segment.text, Directive.text]
  rw [htext] at hfuel ⊢
  refine ⟨fuel, ?_, printed_conversion h fuel args (d.conversion?_options rest)⟩
  simp only [List.length_cons, List.length_append] at hfuel
  omega

/-- What a segment contributes, with the argument that it would take. -/
def Segment.shown (h : Heap) (v : Value) : Segment → Except Fault Text
  | literal t => pure t
  | directive d => if d.letter = '%' then pure [CodePoint.ofChar '%'] else d.contribution h v

/-- The argument for the segment at an index: as many are taken before it as conversions stand in
front of it. Missing arguments are zero. -/
def argument (segments : List Segment) (args : List Value) (i : Nat) : Value :=
  args.getD ((segments.take i).countP Segment.takes) (.int 0)

/-- What the segments contribute. -/
def contributions (h : Heap) (segments : List Segment) (args : List Value) :
    List (Except Fault Text) :=
  segments.mapIdx fun i s => s.shown h (argument segments args i)

theorem contributions_cons (h : Heap) (s : Segment) (segments : List Segment) (args : List Value) :
    contributions h (s :: segments) args = s.shown h (args.headD (.int 0)) ::
      contributions h segments (if s.takes then args.tail else args) := by
  have hargument : ∀ i, argument (s :: segments) args (i + 1) =
      argument segments (if s.takes then args.tail else args) i := by
    intro i
    cases hs : s.takes <;> simp [argument, hs, List.getD_eq_getElem?_getD]
  rw [contributions, List.mapIdx_cons]
  simp only [hargument]
  rw [argument, List.take_zero, List.countP_nil, List.getD_eq_getElem?_getD,
    ← List.head?_eq_getElem?, List.headD_eq_head?_getD, contributions]

/-- One segment at the front of a format. -/
theorem printed_segment (h : Heap) (args : List Value) (rest : Text) (s : Segment) {fuel : Nat}
    (hfuel : (s.text ++ rest).length < fuel) :
    ∃ left, rest.length < left ∧ printed h fuel (s.text ++ rest) args =
      s.shown h (args.headD (.int 0)) >>= fun shown =>
        (shown ++ ·) <$> printed h left rest (if s.takes then args.tail else args) := by
  cases s with
  | literal t =>
    obtain ⟨left, hleft, hprinted⟩ := printed_literal h args rest t hfuel
    exact ⟨left, hleft, hprinted⟩
  | directive d =>
    obtain ⟨left, hleft, hprinted⟩ := printed_directive h args rest d hfuel
    refine ⟨left, hleft, hprinted.trans ?_⟩
    by_cases hpercent : d.letter = '%'
    · simp [Segment.shown, Segment.takes, hpercent]
    · simp [Segment.shown, Segment.takes, hpercent, d.substitute_eq h hpercent]

/-- A format prints what its segments contribute. -/
theorem printed_segments (h : Heap) (segments : List Segment) (args : List Value) {fuel : Nat}
    (hfuel : (segments.flatMap Segment.text).length < fuel) :
    printed h fuel (segments.flatMap Segment.text) args =
      List.flatten <$> (contributions h segments args).mapM id := by
  induction segments generalizing args fuel with
  | nil =>
    obtain ⟨fuel, rfl⟩ : ∃ f, fuel = f + 1 := ⟨fuel - 1, by omega⟩
    rfl
  | cons s segments ih =>
    rw [List.flatMap_cons] at hfuel ⊢
    obtain ⟨left, hleft, hprinted⟩ := printed_segment h args _ s hfuel
    rw [hprinted, contributions_cons, List.mapM_cons, ih _ hleft]
    simp

theorem format_str (h : Heap) (t : Text) (args : List Value) :
    format h (.str t) args =
      List.rdropWhile (· == CodePoint.ofChar '\n') <$> printed h (t.length + 1) t args :=
  rfl

theorem display_zero (h : Heap) : Braced.display h (.int 0) = .ok (Text.ofString "0") := by
  have hzero : intText 0 = .ok "0" := by decide +kernel
  show (intText 0 >>= fun s => pure (Text.ofString s)) = _
  rw [hzero]
  rfl

/-- The segments contribute texts if they can be held and the arguments displayed. -/
theorem exists_texts {h : Heap} {segments : List Segment} {args : List Value}
    (hargs : ∀ v ∈ args, ∃ t, Braced.display h v = .ok t)
    (hheld : ∀ d, .directive d ∈ segments → Directive.Held d) :
    ∃ texts : List Text, contributions h segments args = texts.map .ok := by
  induction segments generalizing args with
  | nil => exact ⟨[], rfl⟩
  | cons s segments ih =>
    have hrest : ∀ v ∈ (if s.takes then args.tail else args), ∃ t, Braced.display h v = .ok t := by
      intro v hv
      split_ifs at hv
      · exact hargs v (List.mem_of_mem_tail hv)
      · exact hargs v hv
    obtain ⟨texts, htexts⟩ := ih hrest fun d hd => hheld d (List.mem_cons_of_mem _ hd)
    have hfirst : ∃ t, Braced.display h (args.headD (.int 0)) = .ok t := by
      cases args with
      | nil => exact ⟨_, display_zero h⟩
      | cons v args => exact hargs v List.mem_cons_self
    obtain ⟨t, ht⟩ : ∃ t, s.shown h (args.headD (.int 0)) = .ok t := by
      cases s with
      | literal t => exact ⟨t, rfl⟩
      | directive d =>
        rw [Segment.shown]
        split_ifs
        · exact ⟨_, rfl⟩
        · exact Directive.exists_contribution (hheld d List.mem_cons_self) hfirst
    exact ⟨t :: texts, by rw [contributions_cons, ht, htexts, List.map_cons]⟩

/-- A format prints its literal texts and what its conversions make of the arguments in order,
without the line feeds at the end. -/
theorem format_segments (h : Heap) (segments : List Segment) (args : List Value) :
    format h (.str (segments.flatMap Segment.text)) args =
        (fun texts => texts.flatten.rdropWhile (· == CodePoint.ofChar '\n')) <$>
          (contributions h segments args).mapM id ∧
      ((∀ v ∈ args, ∃ t, Braced.display h v = .ok t) →
        (∀ d, .directive d ∈ segments → Directive.Held d) →
        ∃ texts : List Text, contributions h segments args = texts.map .ok ∧
          format h (.str (segments.flatMap Segment.text)) args =
            .ok (texts.flatten.rdropWhile (· == CodePoint.ofChar '\n'))) := by
  have hformat := format_str h (segments.flatMap Segment.text) args
  rw [printed_segments h segments args (Nat.lt_succ_self _), Functor.map_map] at hformat
  refine ⟨hformat, fun hargs hheld => ?_⟩
  obtain ⟨texts, htexts⟩ := exists_texts hargs hheld
  refine ⟨texts, htexts, hformat.trans ?_⟩
  rw [htexts, List.mapM_map, show id ∘ Except.ok = fun t : Text => pure (id t) from rfl,
    List.mapM_pure, List.map_id]
  rfl

/-- Two conversions, the second of them without an argument. -/
def padded : List Segment :=
  [.literal "100% ",
    .directive ⟨"-", "3", none, "l", 'd', List.all_eq_true.1 (by decide +kernel),
      List.all_eq_true.1 (by decide +kernel), by simp, by decide +kernel, by decide⟩,
    .literal "|",
    .directive ⟨[], [], none, [], 's', by simp, by simp, by simp, by simp, by decide⟩,
    .literal "\n\n"]

/-- A doubled percent sign, flags with a length mark, a missing argument and two line ends. -/
theorem format_segments_padded :
    ((∀ v ∈ [Value.int 7], ∃ t, Braced.display {} v = .ok t) ∧
        ∀ d, .directive d ∈ padded → Directive.Held d) ∧
      padded.flatMap Segment.text = "100%% %-3ld|%s\n\n" ∧
      format {} (.str (padded.flatMap Segment.text)) [.int 7] = .ok "100% 7  |0" ∧
      ∃ texts : List Text, contributions {} padded [.int 7] = texts.map .ok ∧
        format {} (.str (padded.flatMap Segment.text)) [.int 7] =
          .ok (texts.flatten.rdropWhile (· == CodePoint.ofChar '\n')) := by
  have hargs : ∀ v ∈ [Value.int 7], ∃ t, Braced.display {} v = .ok t := by
    intro v hv
    rw [List.mem_singleton.1 hv]
    exact ⟨"7", by decide +kernel⟩
  have hheld : ∀ d, .directive d ∈ padded → Directive.Held d := by
    intro d hd
    simp only [padded, List.mem_cons, reduceCtorEq, false_or, Segment.directive.injEq,
      List.not_mem_nil, or_false] at hd
    rcases hd with rfl | rfl <;> decide +kernel
  exact ⟨⟨hargs, hheld⟩, by decide +kernel, by decide +kernel,
    (format_segments {} padded [.int 7]).2 hargs hheld⟩

/-- A width that cannot be held ends the call, although a still larger one is refused and the value
displayed. -/
theorem format_overwide :
    format {} (.str "%999999999999999999d") [.int 5] = .error .outOfMemory ∧
      Braced.display {} (.int 5) = .ok "5" ∧
      format {} (.str "%9999999999999999999d") [.int 5] = .ok "5" := by
  decide +kernel

end Stepwise.Printf