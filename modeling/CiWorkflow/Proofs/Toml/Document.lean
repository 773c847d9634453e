import CiWorkflow.Proofs.Toml.Scalar

/-!
# Reading back TOML documents

A text of bindings and headers, each on a line of its own and all with bare keys, is read statement by
statement (`Stated`). The bindings of different keys build the table that lists them in their order, and
those below a header build the table with its name.
-/

namespace CiWorkflow.Toml

/-- A key that needs no quotes. -/
structure IsBareKey (k : String) : Prop where
  ne_nil : k.toList ≠ []
  bare : ∀ c ∈ k.toList, isBareKeyChar c = true

instance (k : String) : Decidable (IsBareKey k) :=
  decidable_of_iff (k.toList ≠ [] ∧ k.toList.all isBareKeyChar = true)
    ⟨fun h => ⟨h.1, List.all_eq_true.mp h.2⟩, fun h => ⟨h.1, List.all_eq_true.mpr h.2⟩⟩

/-- A key without quotes starts neither a comment nor anything in quotes or brackets. -/
lemma IsBareKey.exists_cons {k : String} (hk : IsBareKey k) :
    ∃ c r, k.toList = c :: r ∧ ∀ {d : Char}, isBareKeyChar d = false → c ≠ d := by
  obtain ⟨c, r, hcr⟩ := List.exists_cons_of_ne_nil hk.ne_nil
  exact ⟨c, r, hcr, fun hd => ne_of_class (hk.bare c (hcr ▸ List.mem_cons_self)) hd⟩

/-! ### Statements -/

section stated

variable {k : String} {c : Char} {r r' text w : List Char} {v : Value} {sts : List Statement} {fuel : Nat}

/-- Statements are read from a text. -/
def Stated (text : List Char) (sts : List Statement) : Prop :=
  ∀ fuel, text.length < fuel → statements? fuel text = some sts

lemma dropTail_cons (blank : isBlank c = false) (comment : c ≠ '#') (r : List Char) :
    dropTail (c :: r) = some (c :: r) := by
  unfold dropTail
  rw [List.dropWhile_cons_of_neg (by simp [blank])]
  split
  · rename_i heq
    exact absurd (List.cons.inj heq).1 comment
  · rfl

lemma Stated.nil : Stated [] [] := by
  intro fuel hfuel
  obtain ⟨fuel, rfl⟩ := Nat.exists_eq_succ_of_ne_zero (Nat.ne_zero_of_lt hfuel)
  rfl

/-- An empty line says nothing. -/
lemma Stated.blank (h : Stated text sts) : Stated ('\n' :: text) sts := by
  intro fuel hfuel
  obtain ⟨fuel, rfl⟩ := Nat.exists_eq_succ_of_ne_zero (Nat.ne_zero_of_lt hfuel)
  exact h fuel (Nat.lt_of_succ_lt_succ hfuel)

lemma key?_bare (hk : IsBareKey k) (stop : ∀ c ∈ r.head?, isBareKeyChar c = false) (hr : r.dropWhile isBlank = c :: r')
    (dot : c ≠ '.') (fuel : Nat) : key? (fuel + 1) (k.toList ++ r) = some ([k], c :: r') := by
  have taken : (k.toList ++ r).takeWhile isBareKeyChar = k.toList ∧ (k.toList ++ r).dropWhile isBareKeyChar = r := by
    rw [List.takeWhile_append_of_pos hk.bare, List.dropWhile_append_of_pos hk.bare]
    cases r with
    | nil => cases hr
    | cons d r =>
      have ends : ¬ isBareKeyChar d = true := by simpa using stop d rfl
      rw [List.takeWhile_cons_of_neg ends, List.dropWhile_cons_of_neg ends, List.append_nil]
      exact ⟨rfl, rfl⟩
  obtain ⟨d, ds, hds, other⟩ := hk.exists_cons
  have part : keyPart? fuel (k.toList ++ r) = some (k, r) := by
    rw [hds, List.cons_append]
    unfold keyPart?
    dsimp only
    rw [if_neg (other (by decide)), if_neg (other (by decide)), ← List.cons_append, ← hds, taken.1, taken.2,
      String.ofList_toList, if_neg (by simp [hds])]
  have front : (k.toList ++ r).dropWhile isBlank = k.toList ++ r :=
    hds ▸ dropWhile_isBlank (not_isBlank (other (by decide)) (other (by decide))) ds r
  rw [key?, front, part, Option.bind_some]
  dsimp only
  rw [hr]
  split
  · rename_i heq
    exact absurd (List.cons.inj heq).1 dot
  · rfl

/-- A statement that ends at the end of its line is read before those on the lines below. -/
lemma statements?_cons {s : Statement} (solid : isBlank c = false) (comment : c ≠ '#') (inside : atBreak (c :: r) = false)
    (read : statement? fuel (c :: r) = some (s, '\n' :: text)) :
    statements? (fuel + 1) (c :: r) = (statements? fuel text).map (s :: ·) := by
  have behind : dropTail ('\n' :: text) = some ('\n' :: text) := dropTail_cons (by decide) (by decide) text
  have next : atBreak ('\n' :: text) = true := rfl
  have below : dropBreak ('\n' :: text) = text := rfl
  rw [statements?, dropTail_cons solid comment]
  simp [inside, read, behind, next, below]

/-- A binding on a line of its own is read. -/
lemma Stated.bind (h : Stated text sts) (hk : IsBareKey k) (hw : IsWritten w v) :
    Stated (k.toList ++ ' ' :: '=' :: ' ' :: (w ++ '\n' :: text)) (.bind [k] v :: sts) := by
  intro fuel hfuel
  obtain ⟨fuel, rfl⟩ := Nat.exists_eq_succ_of_ne_zero (Nat.ne_zero_of_lt hfuel)
  simp only [List.length_append, List.length_cons] at hfuel
  have key : key? fuel (k.toList ++ ' ' :: '=' :: ' ' :: (w ++ '\n' :: text)) =
      some ([k], '=' :: ' ' :: (w ++ '\n' :: text)) := by
    obtain ⟨fuel, rfl⟩ := Nat.exists_eq_succ_of_ne_zero (show fuel ≠ 0 by omega)
    exact key?_bare hk (by rintro c ⟨⟩; decide) rfl (by decide) fuel
  have value : value? fuel ((' ' :: (w ++ '\n' :: text)).dropWhile isBlank) = some (v, '\n' :: text) := by
    rw [List.dropWhile_cons_of_pos (by decide), hw.visible]
    exact hw.read fuel text (by omega)
  obtain ⟨d, ds, hds, other⟩ := hk.exists_cons
  rw [hds, List.cons_append] at key ⊢
  have read : statement? fuel (d :: (ds ++ ' ' :: '=' :: ' ' :: (w ++ '\n' :: text))) =
      some (.bind [k] v, '\n' :: text) := by
    have bracket : d ≠ '[' := other (by decide)
    rw [statement?]
    · simp [key, expect, value]
    · exact fun r heq => bracket (List.cons.inj heq).1
    · exact fun r heq => bracket (List.cons.inj heq).1
  have solid : isBlank d = false := not_isBlank (other (by decide)) (other (by decide))
  have inside := not_atBreak (other (by decide)) (other (by decide)) (ds ++ ' ' :: '=' :: ' ' :: (w ++ '\n' :: text))
  rw [statements?_cons solid (other (by decide)) inside read, h fuel (by omega)]
  rfl

/-- A header on a line of its own is read. -/
lemma Stated.table (h : Stated text sts) (hk : IsBareKey k) :
    Stated ('[' :: (k.toList ++ ']' :: '\n' :: text)) (.table [k] :: sts) := by
  intro fuel hfuel
  obtain ⟨fuel, rfl⟩ := Nat.exists_eq_succ_of_ne_zero (Nat.ne_zero_of_lt hfuel)
  simp only [List.length_append, List.length_cons] at hfuel
  have key : key? fuel (k.toList ++ ']' :: '\n' :: text) = some ([k], ']' :: '\n' :: text) := by
    obtain ⟨fuel, rfl⟩ := Nat.exists_eq_succ_of_ne_zero (show fuel ≠ 0 by omega)
    exact key?_bare hk (by rintro c ⟨⟩; decide) rfl (by decide) fuel
  obtain ⟨d, ds, hds, other⟩ := hk.exists_cons
  have read : statement? fuel ('[' :: (k.toList ++ ']' :: '\n' :: text)) = some (.table [k], '\n' :: text) := by
    rw [statement?]
    · simp [key, expect]
    · rintro r heq
      rw [hds] at heq
      exact other (by decide) (List.cons.inj heq).1
  rw [statements?_cons (by decide) (by decide) rfl read, h fuel (by omega)]
  rfl

end stated

/-! ### Tables -/

section tables

variable {k : String} {ns top inner : Nodes} {t : Table} {sts : List Statement}

/-- The statements that bind keys to values. -/
def binds (t : Table) : List Statement := t.map fun b => .bind [b.1] b.2

/-- Keys that are bound to values, in a table under construction. -/
def values (t : Table) : Nodes := t.map fun b => (b.1, .value b.2)

lemma find?_eq_none (h : k ∉ ns.map Prod.fst) : ns.find? k = none := by
  rw [Nodes.find?, List.lookup_eq_none_iff]
  rintro ⟨j, n⟩ hmem
  have other : k ≠ j := by
    rintro rfl
    exact h (List.mem_map_of_mem hmem)
  simpa using other

lemma put_new (n : Node) (h : k ∉ ns.map Prod.fst) : Nodes.put k n ns = ns ++ [(k, n)] := by
  induction ns with
  | nil => rfl
  | cons e ns ih =>
    rw [List.map_cons, List.mem_cons, not_or] at h
    rw [Nodes.put, if_neg (Ne.symm h.1), ih h.2]
    rfl

lemma put_last (n m : Node) (h : k ∉ top.map Prod.fst) : Nodes.put k n (top ++ [(k, m)]) = top ++ [(k, n)] := by
  induction top with
  | nil => simp [Nodes.put]
  | cons e top ih =>
    rw [List.map_cons, List.mem_cons, not_or] at h
    rw [List.cons_append, Nodes.put, if_neg (Ne.symm h.1), ih h.2]
    rfl

lemma find?_last (n : Node) (h : k ∉ top.map Prod.fst) : Nodes.find? (top ++ [(k, n)]) k = some n := by
  have before : List.lookup k top = none := find?_eq_none h
  rw [Nodes.find?, List.lookup_append, before]
  simp

lemma bind_new (v : Value) (h : k ∉ ns.map Prod.fst) : Nodes.bind v [k] ns = some (ns ++ [(k, .value v)]) := by
  simp [Nodes.bind, find?_eq_none h]

lemma fresh_of_nodup {b : String × Value} (h : (ns.map Prod.fst ++ (b :: t).map Prod.fst).Nodup) :
    b.1 ∉ ns.map Prod.fst ∧ ((ns ++ [(b.1, Node.value b.2)]).map Prod.fst ++ t.map Prod.fst).Nodup := by
  refine ⟨fun hmem => ?_, by simpa using h⟩
  exact (List.nodup_append.mp h).2.2 b.1 hmem b.1 List.mem_cons_self rfl

/-- Bindings of new keys are put behind those that are there. -/
lemma assemble_binds (h : (ns.map Prod.fst ++ t.map Prod.fst).Nodup) (sts : List Statement) :
    assemble [] ns (binds t ++ sts) = assemble [] (ns ++ values t) sts := by
  induction t generalizing ns with
  | nil => simp [binds, values]
  | cons b t ih =>
    obtain ⟨fresh, more⟩ := fresh_of_nodup h
    have rest := ih more
    rw [List.append_assoc] at rest
    calc assemble [] ns (.bind [b.1] b.2 :: (binds t ++ sts))
        = assemble [] (ns ++ [(b.1, .value b.2)]) (binds t ++ sts) := by
          rw [assemble, Nodes.within, bind_new b.2 fresh, Option.bind_some]
      _ = assemble [] (ns ++ values (b :: t)) sts := rest

/-- So are those below a header, in the table with its name. -/
lemma assemble_section (hk : k ∉ top.map Prod.fst) (h : (inner.map Prod.fst ++ t.map Prod.fst).Nodup) :
    assemble [k] (top ++ [(k, .table .header inner)]) (binds t) =
      some (top ++ [(k, .table .header (inner ++ values t))]) := by
  induction t generalizing inner with
  | nil => simp [binds, values, assemble]
  | cons b t ih =>
    obtain ⟨fresh, more⟩ := fresh_of_nodup h
    have rest := ih more
    rw [List.append_assoc] at rest
    calc assemble [k] (top ++ [(k, .table .header inner)]) (.bind [b.1] b.2 :: binds t)
        = assemble [k] (top ++ [(k, .table .header (inner ++ [(b.1, .value b.2)]))]) (binds t) := by
          rw [assemble, Nodes.within, find?_last _ hk]
          dsimp only
          rw [Nodes.within, bind_new b.2 fresh, Option.map_some, put_last _ _ hk, Option.bind_some]
      _ = some (top ++ [(k, .table .header (inner ++ values (b :: t)))]) := rest

lemma assemble_table (hk : k ∉ top.map Prod.fst) (h : (t.map Prod.fst).Nodup) :
    assemble [] top (.table [k] :: binds t) = some (top ++ [(k, .table .header (values t))]) := by
  have last : splitLast? [k] = some ([], k) := rfl
  have opened : Nodes.openTable k top = some (top ++ [(k, .table .header [])]) := by
    rw [Nodes.openTable, find?_eq_none hk]
    exact congrArg some (put_new _ hk)
  rw [assemble, last, Option.bind_some]
  dsimp only
  rw [Nodes.within, opened, Option.bind_some]
  exact assemble_section hk h

lemma toTable_append (ns ns' : Nodes) : toTable (ns ++ ns') = toTable ns ++ toTable ns' := by
  induction ns with
  | nil => rfl
  | cons e ns ih => rw [List.cons_append, toTable, toTable, ih, List.cons_append]

lemma toTable_values (t : Table) : toTable (values t) = t := by
  induction t with
  | nil => rfl
  | cons b t ih =>
    show (b.1, b.2) :: toTable (values t) = b :: t
    rw [ih]

/-- A document is the table that its statements build. -/
lemma ofText?_of_stated {text : List Char} (h : Stated text sts) (mark : text.head? ≠ some '\ufeff')
    (built : assemble [] [] sts = some ns) : ofText? (String.ofList text) = some (toTable ns) := by
  have whole : dropMark text = text := by
    unfold dropMark
    split <;> simp_all
  rw [ofText?, String.toList_ofList, whole, h _ (by omega), Option.bind_some, built, Option.map_some]

end tables

end CiWorkflow.Toml
