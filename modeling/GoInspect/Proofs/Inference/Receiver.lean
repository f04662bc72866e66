import GoInspect.Inference
import Mathlib.Data.List.Infix
import Mathlib.Data.List.TakeWhile
import Mathlib.Order.Bounds.Basic

/-!
# Receivers in the names of methods

The name of a method with a pointer receiver has the receiver between `.(*` and `).`, on one line. A
name can have both marks at several places. The receiver then begins at the first `.(*` that some
`).` closes, and reaches to the last `).` that closes it. A `.(*` that none closes is passed over.
-/

namespace GoInspect

namespace Receiver

variable {t mark name path receiver : Text} {b : UInt8} {i j k : Nat}

/-- What closes a pointer receiver in the name of a method. -/
def closing : Text := utf8 ")."

section StandsAt

/-- The text has the mark at the position. -/
def StandsAt (mark t : Text) (k : Nat) : Prop := mark <+: t.drop k

theorem standsAt_zero : StandsAt mark t 0 ↔ mark <+: t := Iff.rfl

theorem standsAt_succ : StandsAt mark (b :: t) (k + 1) ↔ StandsAt mark t k := Iff.rfl

theorem standsAt_append {front : Text} :
    StandsAt mark (front ++ t) (front.length + k) ↔ StandsAt mark t k := by
  rw [StandsAt, ← List.drop_drop, List.drop_left]
  rfl

theorem standsAt_drop {n : Nat} : StandsAt mark (t.drop n) k ↔ StandsAt mark t (n + k) := by
  rw [StandsAt, List.drop_drop]
  rfl

theorem StandsAt.infix (h : StandsAt mark t k) : mark <:+: t :=
  (List.IsPrefix.isInfix h).trans (List.drop_suffix k t).isInfix

/-- A mark of bytes that pass the test begins the text if it begins what comes before the first byte
that fails. -/
theorem prefix_takeWhile_iff {p : UInt8 → Bool} (all : ∀ b ∈ mark, p b = true) :
    mark <+: t.takeWhile p ↔ mark <+: t := by
  constructor
  · exact fun h => h.trans (List.takeWhile_prefix p)
  · rintro ⟨rest, rfl⟩
    rw [List.takeWhile_append_of_pos all]
    exact List.prefix_append mark _

/-- A mark of such bytes stands at a place before that byte if it stands there in the text, and all
bytes up to it pass. -/
theorem standsAt_takeWhile_iff {p : UInt8 → Bool} (nonempty : mark ≠ [])
    (all : ∀ b ∈ mark, p b = true) :
    StandsAt mark (t.takeWhile p) k ↔ StandsAt mark t k ∧ ∀ b ∈ t.take k, p b = true := by
  induction t generalizing k with
  | nil => simp [StandsAt, nonempty]
  | cons b rest ih =>
      cases k with
      | zero =>
          rw [standsAt_zero, prefix_takeWhile_iff all, List.take_zero]
          exact (and_iff_left (List.forall_mem_nil _)).symm
      | succ k =>
          rw [List.take_succ_cons, List.forall_mem_cons, standsAt_succ]
          by_cases pass : p b = true
          · rw [List.takeWhile_cons_of_pos pass, standsAt_succ, ih, and_iff_right pass]
          · rw [List.takeWhile_cons_of_neg pass]
            simp [StandsAt, nonempty, pass]

/-- A mark whose first byte does not come again in it stands at no place before this one. -/
theorem StandsAt.le {front : Text} (h : StandsAt mark (front ++ (mark ++ t)) k)
    (once : mark.head? ∉ mark.tail.map some) (free : ¬mark <:+: front) : front.length ≤ k := by
  by_contra before
  have left : front.drop k ≠ [] := mt List.drop_eq_nil_iff.mp before
  obtain ⟨first, more, split⟩ := List.exists_cons_of_ne_nil left
  have within (back : Text) (same : front.drop k = mark ++ back) : False := by
    have stands : StandsAt mark front k := ⟨back, same.symm⟩
    exact free stands.infix
  rw [StandsAt, List.drop_append_of_le_length (by omega)] at h
  obtain ⟨rest, same⟩ := h
  rcases List.append_eq_append_iff.mp same with ⟨back, inside, -⟩ | ⟨beyond, across, behind⟩
  · exact within back inside
  · cases beyond with
    | nil => exact within [] (by rw [across, List.append_nil, List.append_nil])
    | cons o os =>
        -- The mark begins again inside itself, with its byte `o`.
        rw [split] at across
        have again : o ∈ mark.tail := across ▸ List.mem_append_right more List.mem_cons_self
        have begins : mark.head? = some o := by
          rw [across] at behind ⊢
          exact congrArg List.head? behind
        exact once (begins ▸ List.mem_map_of_mem again)

end StandsAt

section Closing

theorem closing_eq : closing = [41, 46] := by
  decide

theorem standsAt_closing_zero : StandsAt closing (b :: t) 0 ↔ b = 41 ∧ t.head? = some 46 := by
  rw [standsAt_zero, closing_eq, List.cons_prefix_cons, eq_comm]
  refine and_congr_right' ?_
  cases t with
  | nil => simp
  | cons c rest => simp [eq_comm]

theorem beforeLastClosing?_eq_none_iff :
    beforeLastClosing? t = none ↔ ∀ k, ¬StandsAt closing t k := by
  fun_induction beforeLastClosing? t with
  | case1 =>
      refine iff_of_true rfl fun k stands => ?_
      exact absurd stands.infix (by decide)
  | case2 b rest before found ih =>
      refine iff_of_false (Option.some_ne_none _) fun free => ?_
      rw [found] at ih
      exact Option.some_ne_none _ (ih.mpr fun k => free (k + 1))
  | case3 b rest absent here ih =>
      exact iff_of_false (Option.some_ne_none _) fun free => free 0 (standsAt_closing_zero.mpr here)
  | case4 b rest absent other ih =>
      refine iff_of_true rfl fun k stands => ?_
      cases k with
      | zero => exact other (standsAt_closing_zero.mp stands)
      | succ k => exact ih.mp absent k stands

/-- The last closing mark ends the text before it. -/
theorem isGreatest_beforeLastClosing? (h : beforeLastClosing? t = some receiver) :
    IsGreatest {k | StandsAt closing t k} receiver.length ∧ receiver <+: t := by
  fun_induction beforeLastClosing? t generalizing receiver with
  | case1 => cases h
  | case2 b rest before found ih =>
      obtain rfl := Option.some.inj h
      obtain ⟨⟨stands, last⟩, within⟩ := ih found
      refine ⟨⟨stands, fun k other => ?_⟩, List.cons_prefix_cons.mpr ⟨rfl, within⟩⟩
      cases k with
      | zero => exact Nat.zero_le _
      | succ k => exact Nat.succ_le_succ (last other)
  | case3 b rest absent here ih =>
      obtain rfl := Option.some.inj h
      refine ⟨⟨standsAt_closing_zero.mpr here, fun k other => ?_⟩, List.nil_prefix⟩
      cases k with
      | zero => exact Nat.le_refl 0
      | succ k => exact absurd other (beforeLastClosing?_eq_none_iff.mp absent k)
  | case4 => cases h

end Closing

section Spans

/-- The text between an opening mark at `i` and a closing mark at `j`. -/
def between (name : Text) (i j : Nat) : Text := (name.take j).drop (i + 3)

theorem between_zero : between t 0 (k + 3) = (t.drop 3).take k := List.drop_take

theorem between_succ : between (b :: t) (i + 1) (j + 1) = between t i j := by
  rw [between, List.take_succ_cons, Nat.succ_add, List.drop_succ_cons, between]

/-- There is no end of a line in the text. -/
def OneLine (t : Text) : Prop := 10 ∉ t ∧ 13 ∉ t

theorem oneLine_iff : OneLine t ↔ ∀ b ∈ t, (!isLineEnd b) = true := by
  have plain (b : UInt8) : (!isLineEnd b) = true ↔ b ≠ 10 ∧ b ≠ 13 := by simp [isLineEnd]
  simp only [plain, OneLine, forall_and, List.forall_mem_ne']

/-- A pointer receiver of the name lies between the opening mark at `i` and the closing mark at
`j`. -/
structure Spans (name : Text) (i j : Nat) : Prop where
  opens : StandsAt opening name i
  closes : StandsAt closing name j
  apart : i + 3 ≤ j
  oneLine : OneLine (between name i j)

theorem not_spans_nil : ¬Spans [] i j := fun spans => absurd spans.opens.infix (by decide)

theorem spans_succ : Spans (b :: t) (i + 1) (j + 1) ↔ Spans t i j := by
  constructor
  · rintro ⟨opens, closes, apart, oneLine⟩
    rw [between_succ] at oneLine
    exact ⟨opens, closes, by omega, oneLine⟩
  · rintro ⟨opens, closes, apart, oneLine⟩
    rw [← between_succ] at oneLine
    exact ⟨opens, closes, by omega, oneLine⟩

/-- A receiver that does not begin at the first byte is one of the rest. -/
theorem Spans.tail (h : Spans (b :: t) (i + 1) j) : ∃ k, j = k + 1 ∧ Spans t i k := by
  obtain ⟨k, rfl⟩ := Nat.exists_eq_add_of_le' h.apart
  exact ⟨_, rfl, spans_succ.mp h⟩

/-- A receiver at the beginning of a name ends at a closing mark in what is left of the line. -/
theorem spans_zero_iff :
    Spans t 0 (k + 3) ↔
      opening <+: t ∧ StandsAt closing ((t.drop 3).takeWhile (!isLineEnd ·)) k := by
  have inLine : OneLine closing := ⟨by decide, by decide⟩
  rw [standsAt_takeWhile_iff (by decide) (oneLine_iff.mp inLine), standsAt_drop, Nat.add_comm 3,
    ← between_zero, ← oneLine_iff]
  constructor
  · rintro ⟨opens, closes, -, oneLine⟩
    exact ⟨opens, closes, oneLine⟩
  · rintro ⟨opens, closes, oneLine⟩
    exact ⟨opens, closes, by omega, oneLine⟩

theorem first?_eq_none_iff : first? t = none ↔ ∀ j, ¬Spans t 0 j := by
  rw [first?]
  split
  · next opens =>
    rw [beforeLastClosing?_eq_none_iff]
    constructor
    · intro free j spans
      obtain ⟨k, rfl⟩ := Nat.exists_eq_add_of_le' spans.apart
      exact free k (spans_zero_iff.mp spans).2
    · intro free k stands
      exact free _ (spans_zero_iff.mpr ⟨List.isPrefixOf_iff_prefix.mp opens, stands⟩)
  · next closed =>
    refine iff_of_true rfl fun j spans => closed ?_
    exact List.isPrefixOf_iff_prefix.mpr spans.opens

theorem isGreatest_first? (h : first? t = some receiver) :
    ∃ j, IsGreatest {j | Spans t 0 j} j ∧ between t 0 j = receiver := by
  rw [first?] at h
  split at h
  · next opens =>
    obtain ⟨⟨stands, last⟩, within⟩ := isGreatest_beforeLastClosing? h
    refine ⟨receiver.length + 3, ⟨?_, ?_⟩, ?_⟩
    · exact spans_zero_iff.mpr ⟨List.isPrefixOf_iff_prefix.mp opens, stands⟩
    · intro j spans
      obtain ⟨k, rfl⟩ := Nat.exists_eq_add_of_le' spans.apart
      exact Nat.add_le_add_right (last (spans_zero_iff.mp spans).2) 3
    · rw [between_zero]
      exact (List.prefix_iff_eq_take.mp (within.trans (List.takeWhile_prefix _))).symm
  · cases h

end Spans

section Chosen

/-- Of all receivers of a name, the one that begins first, and of those the one that reaches
farthest. -/
structure Chosen (name : Text) (i j : Nat) : Prop where
  first : IsLeast {i | ∃ j, Spans name i j} i
  last : IsGreatest {j | Spans name i j} j

theorem Chosen.unique {i' j' : Nat} (h : Chosen name i j) (h' : Chosen name i' j') :
    i = i' ∧ j = j' := by
  obtain rfl := h.first.unique h'.first
  exact ⟨rfl, h.last.unique h'.last⟩

theorem chosen_zero (last : IsGreatest {j | Spans name 0 j} j) : Chosen name 0 j :=
  ⟨⟨⟨j, last.1⟩, fun _ _ => Nat.zero_le _⟩, last⟩

theorem Chosen.succ (h : Chosen t i j) (notHere : ∀ j, ¬Spans (b :: t) 0 j) :
    Chosen (b :: t) (i + 1) (j + 1) := by
  refine ⟨⟨⟨j + 1, spans_succ.mpr h.last.1⟩, ?_⟩, ⟨spans_succ.mpr h.last.1, ?_⟩⟩
  · rintro (_ | i') ⟨j', spans⟩
    · exact absurd spans (notHere j')
    · obtain ⟨k, rfl, rest⟩ := spans.tail
      exact Nat.succ_le_succ (h.first.2 ⟨k, rest⟩)
  · rintro (_ | j') spans
    · exact Nat.zero_le _
    · exact Nat.succ_le_succ (h.last.2 (spans_succ.mp spans))

theorem split?_eq_none_iff : split? name = none ↔ ∀ i j, ¬Spans name i j := by
  induction name with
  | nil => exact iff_of_true rfl fun _ _ => not_spans_nil
  | cons b rest ih =>
      rw [split?]
      cases here : first? (b :: rest) with
      | some r =>
          refine iff_of_false (Option.some_ne_none _) fun free => ?_
          obtain ⟨j, last, -⟩ := isGreatest_first? here
          exact free 0 j last.1
      | none =>
          rw [first?_eq_none_iff] at here
          rw [Option.map_eq_none_iff, ih]
          constructor
          · rintro free (_ | i) j spans
            · exact here j spans
            · obtain ⟨k, rfl, rest⟩ := spans.tail
              exact free i k rest
          · intro free i j spans
            exact free _ _ (spans_succ.mpr spans)

theorem chosen_split? (h : split? name = some (path, receiver)) :
    ∃ i j, Chosen name i j ∧ name.take i = path ∧ between name i j = receiver := by
  induction name generalizing path receiver with
  | nil => cases h
  | cons b rest ih =>
      rw [split?] at h
      cases here : first? (b :: rest) with
      | some r =>
          rw [here] at h
          cases h
          obtain ⟨j, last, rfl⟩ := isGreatest_first? here
          exact ⟨0, j, chosen_zero last, rfl, rfl⟩
      | none =>
          rw [here] at h
          obtain ⟨⟨before, r⟩, found, same⟩ := Option.map_eq_some_iff.mp h
          cases same
          obtain ⟨i, j, chosen, rfl, rfl⟩ := ih found
          exact ⟨i + 1, j + 1, chosen.succ (first?_eq_none_iff.mp here), rfl, between_succ⟩

theorem split?_eq_some_iff :
    split? name = some (path, receiver) ↔
      ∃ i j, Chosen name i j ∧ name.take i = path ∧ between name i j = receiver := by
  refine ⟨chosen_split?, ?_⟩
  rintro ⟨i, j, chosen, rfl, rfl⟩
  cases found : split? name with
  | none => exact absurd chosen.last.1 (split?_eq_none_iff.mp found i j)
  | some parts =>
      obtain ⟨i', j', chosen', path, receiver⟩ := chosen_split? found
      obtain ⟨rfl, rfl⟩ := chosen.unique chosen'
      exact congrArg some (Prod.ext path receiver).symm

end Chosen

section Component

/-- The text is what comes after the last slash of the path, or all of it. -/
def IsLastComponent (path c : Text) : Prop :=
  47 ∉ c ∧ (path = c ∨ ∃ directory, path = directory ++ 47 :: c)

theorem isLastComponent_iff {c : Text} : IsLastComponent path c ↔ Text.lastComponent path = c := by
  constructor
  · rintro ⟨plain, whole⟩
    have inside : ∀ b ∈ c.reverse, (b != 47) = true := fun b mem =>
      bne_iff_ne.mpr fun slash => plain (slash ▸ List.mem_reverse.mp mem)
    rcases whole with rfl | ⟨directory, rfl⟩
    · rw [Text.lastComponent, List.takeWhile_eq_self_iff.mpr inside, List.reverse_reverse]
    · rw [Text.lastComponent, List.reverse_append, List.reverse_cons, List.append_assoc,
        List.takeWhile_append_of_pos inside, List.singleton_append,
        List.takeWhile_cons_of_neg (by decide), List.append_nil, List.reverse_reverse]
  · rintro rfl
    constructor
    · intro mem
      exact bne_iff_ne.mp (List.mem_takeWhile_imp (p := (· != 47)) (List.mem_reverse.mp mem)) rfl
    · have parts : path =
          (path.reverse.dropWhile (· != 47)).reverse ++ Text.lastComponent path := by
        rw [Text.lastComponent, ← List.reverse_append, List.takeWhile_append_dropWhile,
          List.reverse_reverse]
      cases before : path.reverse.dropWhile (· != 47) with
      | nil =>
          rw [before] at parts
          exact .inl parts
      | cons b rest =>
          have slash := List.head?_dropWhile_not (· != 47) path.reverse
          rw [before] at slash parts
          obtain rfl : b = 47 := by simpa using slash
          rw [List.reverse_cons, List.append_assoc] at parts
          exact .inr ⟨_, parts⟩

end Component

section Written

variable {p receiver r : Text}

theorem between_append {back : Text} :
    between (p ++ (opening ++ (receiver ++ back))) p.length (p.length + (3 + receiver.length)) =
      receiver := by
  have past : (p ++ (opening ++ (receiver ++ back))).drop (p.length + 3) = receiver ++ back := by
    rw [← List.drop_drop, List.drop_left]
    exact List.drop_left' (by decide)
  rw [between, List.drop_take, past, ← Nat.add_assoc, Nat.add_sub_cancel_left, List.take_left]

theorem StandsAt.eq_zero (h : StandsAt closing (closing ++ r) k) (free : ¬closing <:+: r) :
    k = 0 := by
  match k with
  | 0 => rfl
  | 1 =>
      rw [closing_eq, List.cons_append, standsAt_succ, ← closing_eq] at h
      exact absurd (standsAt_closing_zero.mp h).1 (by decide)
  | k + 2 =>
      have stands : StandsAt closing r k := standsAt_append.mp (Nat.add_comm k 2 ▸ h)
      exact absurd stands.infix free

/-- Where the package has no opening mark and what follows the receiver has no closing one, the
receiver is found where it was written. It can have marks itself. -/
theorem chosen_append (package : ¬opening <:+: p) (rest : ¬closing <:+: r)
    (oneLine : OneLine receiver) :
    Chosen (p ++ (opening ++ (receiver ++ (closing ++ r)))) p.length
      (p.length + (3 + receiver.length)) := by
  have three : opening.length = 3 := by decide
  have behind (k : Nat) : StandsAt closing (p ++ (opening ++ (receiver ++ (closing ++ r))))
      (p.length + (3 + (receiver.length + k))) ↔ StandsAt closing (closing ++ r) k := by
    rw [standsAt_append, ← three, standsAt_append, standsAt_append]
  have spans : Spans (p ++ (opening ++ (receiver ++ (closing ++ r)))) p.length
      (p.length + (3 + receiver.length)) := by
    refine ⟨?_, (behind 0).mpr (List.prefix_append _ _), by omega, ?_⟩
    · exact (standsAt_append (k := 0)).mpr (List.prefix_append _ _)
    · rwa [between_append]
  refine ⟨⟨⟨_, spans⟩, ?_⟩, ⟨spans, ?_⟩⟩
  · rintro i ⟨j, other⟩
    exact other.opens.le (by decide) package
  · intro j other
    by_contra after
    obtain ⟨k, rfl⟩ : ∃ k, j = p.length + (3 + (receiver.length + (k + 1))) :=
      ⟨j - (p.length + (3 + (receiver.length + 1))), by omega⟩
    cases ((behind _).mp other.closes).eq_zero rest

end Written

theorem typeName?_eq_some_iff {type : Text} :
    typeName? name = some type ↔
      ∃ i j c, Chosen name i j ∧ IsLastComponent (name.take i) c ∧
        type = c ++ utf8 "." ++ between name i j := by
  rw [typeName?, Option.map_eq_some_iff]
  constructor
  · rintro ⟨⟨path, receiver⟩, found, rfl⟩
    obtain ⟨i, j, chosen, rfl, rfl⟩ := split?_eq_some_iff.mp found
    exact ⟨i, j, _, chosen, isLastComponent_iff.mpr rfl, rfl⟩
  · rintro ⟨i, j, c, chosen, component, rfl⟩
    obtain rfl := isLastComponent_iff.mp component
    exact ⟨_, split?_eq_some_iff.mpr ⟨i, j, chosen, rfl, rfl⟩, rfl⟩

theorem isSome_typeName?_iff : (typeName? name).isSome = true ↔ ∃ i j, Spans name i j := by
  rw [typeName?, Option.isSome_map, Option.isSome_iff_ne_none, Ne, split?_eq_none_iff]
  simp only [not_forall, not_not]

/-- The name of a method has the type of a receiver exactly if it has a receiver. The receiver is
the one that begins first, at its farthest, and the package before it is the last component of the
path. A receiver on one line is found as it was written, whatever marks it has, if there is no
opening mark in the path and no closing one behind it. -/
theorem typeName?_receiver :
    (∀ name type : Text, typeName? name = some type ↔
      ∃ i j c, Chosen name i j ∧ IsLastComponent (name.take i) c ∧
        type = c ++ utf8 "." ++ between name i j) ∧
    (∀ name : Text, (typeName? name).isSome = true ↔ ∃ i j, Spans name i j) ∧
    ∀ path c receiver method : Text, ¬opening <:+: path → IsLastComponent path c →
      OneLine receiver → ¬closing <:+: method →
      typeName? (path ++ (opening ++ (receiver ++ (closing ++ method)))) =
        some (c ++ utf8 "." ++ receiver) := by
  refine ⟨fun _ _ => typeName?_eq_some_iff, fun _ => isSome_typeName?_iff, ?_⟩
  intro path c receiver method package component oneLine rest
  refine typeName?_eq_some_iff.mpr ⟨_, _, c, chosen_append package rest oneLine, ?_, ?_⟩
  · rwa [List.take_left]
  · rw [between_append]

/-- A closure in a method of a generic type. There are slashes and dots in the type as well. -/
theorem typeName?_receiver_closure :
    ¬opening <:+: utf8 "example.com/tree" ∧
      IsLastComponent (utf8 "example.com/tree") (utf8 "tree") ∧
      OneLine (utf8 "Node[go/ast.Expr]") ∧ ¬closing <:+: utf8 "Walk.func1" ∧
      typeName? (utf8 "example.com/tree.(*Node[go/ast.Expr]).Walk.func1") =
        some (utf8 "tree.Node[go/ast.Expr]") := by
  have package : ¬opening <:+: utf8 "example.com/tree" := by decide
  have component : IsLastComponent (utf8 "example.com/tree") (utf8 "tree") :=
    ⟨by decide, .inr ⟨utf8 "example.com", by decide⟩⟩
  have oneLine : OneLine (utf8 "Node[go/ast.Expr]") := ⟨by decide, by decide⟩
  have rest : ¬closing <:+: utf8 "Walk.func1" := by decide
  exact ⟨package, component, oneLine, rest,
    typeName?_receiver.2.2 _ _ _ _ package component oneLine rest⟩

/-- No `).` on the same line closes the first `.(*`, and the second one is closed twice. -/
example : typeName? (utf8 "a.(*b\nexample.com/c.(*T).d).e") = some (utf8 "c.T).d") := by
  decide

end Receiver

end GoInspect
