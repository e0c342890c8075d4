import CodeAtlas.Bolt.Client
import CodeAtlas.Proofs.Json.Structure

/-!
# Values on their way to a database

Parameters leave as JSON values and travel as values on the wire.  An integer that fits a word with a sign stays an
integer, and every other value stays what it is, at every depth; so the JSON value can be told from the value on
the wire.  This does not rest on the order in which a table lists its fields.

## Main definitions

* `CodeAtlas.Json.isSigned` — the value is no integer out of range.
* `CodeAtlas.Bolt.Value.shapeAt?` — what a path leads to in a value on the wire.
* `CodeAtlas.Bolt.Server.recorded` — the database that writes down what it hears.

## Main results

* `CodeAtlas.Bolt.Value.shapeAt?_ofJson` — nothing that can be seen of a value changes.
* `CodeAtlas.Bolt.Value.ofJson_inj` — different values stay different.
* `CodeAtlas.Bolt.log_attempt` — what a database hears of a statement.
* `CodeAtlas.Bolt.Value.ofJson_loses_nothing` — values and parameters arrive as they were.
-/

namespace CodeAtlas

/-- The value is not an integer out of the range of words with a sign. -/
def Json.isSigned : Json → Bool
  | .int i => Number.Word.isSigned i
  | _ => true

namespace Bolt

open CodeAtlas.Graph

namespace Value

/-! ## Shapes -/

/-- The shape of a value. -/
def shape : Value → Json.Shape
  | .null => .null
  | .bool b => .bool b
  | .int i => .int i
  | .float x => .float x
  | .str s => .str s
  | .list items => .list items.length
  | .map fields => .table (Table.keys fields).toFinset

/-- The value that steps lead to. -/
def at? : List Json.Step → Value → Option Value
  | [], v => some v
  | .item i :: rest, .list items => items[i]?.bind (at? rest)
  | .field key :: rest, .map fields => (Table.get? key fields).bind (at? rest)
  | _ :: _, _ => none

/-- The shape of the value that steps lead to. -/
def shapeAt? (path : List Json.Step) (v : Value) : Option Json.Shape := (v.at? path).map shape

/-! ## Conversion -/

/-- Items are converted one by one. -/
lemma ofItems_eq_map (items : List Json) : ofItems items = items.map ofJson := by
  induction items with
  | nil => rfl
  | cons v rest ih => rw [ofItems, ih, List.map_cons]

/-- Fields are converted one by one. -/
lemma ofFields_eq_map (fields : Table Json) : ofFields fields = fields.map (Prod.map id ofJson) := by
  induction fields with
  | nil => rfl
  | cons e rest ih =>
    obtain ⟨key, v⟩ := e
    rw [ofFields, ih, List.map_cons, Prod.map_apply, id]

/-- **Each key keeps its own value.** -/
theorem get?_ofFields (fields : Table Json) (key : String) :
    Table.get? key (ofFields fields) = (fields.get? key).map ofJson := by
  induction fields with
  | nil => rfl
  | cons e rest ih =>
    obtain ⟨k, v⟩ := e
    rw [ofFields, Table.get?, Table.get?]
    split_ifs
    · rfl
    · exact ih

/-- An integer in range stays an integer. -/
lemma ofInt_of_isSigned {i : Int} (h : Number.Word.isSigned i = true) : ofInt i = .int i := by
  rw [ofInt, if_pos h]

/-- Nothing is in an integer, whether it is in range or not. -/
lemma at?_ofInt (i : Int) (step : Json.Step) (path : List Json.Step) :
    (ofInt i).at? (step :: path) = none := by
  unfold ofInt
  split_ifs <;> cases step <;> rfl

/-- **A value keeps its shape.** -/
theorem shape_ofJson {v : Json} (h : v.isSigned = true) : (ofJson v).shape = v.shape := by
  cases v with
  | int i => rw [ofJson, ofInt_of_isSigned h, shape, Json.shape]
  | arr items => rw [ofJson, shape, Json.shape, ofItems_eq_map, List.length_map]
  | obj fields =>
    have hkeys : Table.keys (ofFields fields) = Table.keys fields := by
      rw [ofFields_eq_map, Table.keys, Table.keys, List.map_map]
      rfl
    rw [ofJson, shape, Json.shape, hkeys]
  | _ => rfl

/-- **Each place in a value keeps its own value.**

**Proof sketch.** Induction on the path.  An integer becomes a number of some kind, in which no step leads anywhere.
An item of a list and a field of a table are converted by themselves, so that the first step leads to the conversion
of what it led to before, where the hypothesis applies. -/
theorem at?_ofJson (path : List Json.Step) (v : Json) : (ofJson v).at? path = (v.at? path).map ofJson := by
  induction path generalizing v with
  | nil => rfl
  | cons step rest ih =>
    cases v with
    | int i =>
      rw [ofJson, at?_ofInt]
      cases step <;> rfl
    | arr items =>
      cases step with
      | field key => rfl
      | item i =>
        rw [ofJson, at?, Json.at?, ofItems_eq_map, List.getElem?_map, Option.bind_map, Option.map_bind]
        exact congrArg _ (funext ih)
    | obj fields =>
      cases step with
      | item i => rfl
      | field key =>
        rw [ofJson, at?, Json.at?, get?_ofFields, Option.bind_map, Option.map_bind]
        exact congrArg _ (funext ih)
    | _ => cases step <;> rfl

/-- **Nothing that can be seen of a value changes**, at whatever depth. -/
theorem shapeAt?_ofJson {v : Json} (h : v.everywhere Json.isSigned = true) (path : List Json.Step) :
    (ofJson v).shapeAt? path = v.shapeAt? path := by
  rw [shapeAt?, Json.shapeAt?, at?_ofJson, Option.map_map]
  cases hat : v.at? path with
  | none => rfl
  | some w =>
    have hw : w.isSigned = true := Json.test_of_everywhere (Json.everywhere_of_at? h hat)
    exact congrArg some (shape_ofJson hw)

/-- Lists that become equal were equal, if that holds of what is in them. -/
private lemma eq_of_map_eq {α β : Type} {f : α → β} {l l' : List α}
    (hinj : ∀ a ∈ l, ∀ b ∈ l', f a = f b → a = b) (h : l.map f = l'.map f) : l = l' := by
  induction l generalizing l' with
  | nil => exact (List.map_eq_nil_iff.mp h.symm).symm
  | cons a rest ih =>
    cases l' with
    | nil => simp at h
    | cons b rest' =>
      obtain ⟨hhead, htail⟩ := List.cons.inj h
      rw [hinj a (by simp) b (by simp) hhead,
        ih (fun c hc d hd => hinj c (by simp [hc]) d (by simp [hd])) htail]

/-- **Different values stay different.**

**Proof sketch.** Induction over the first value.  The shapes of the two values agree because those of the converted
ones do, so that both are of one kind; for lists and tables the induction hypothesis applies to what is in them. -/
theorem ofJson_inj {v w : Json} (hv : v.everywhere Json.isSigned = true)
    (hw : w.everywhere Json.isSigned = true) (h : ofJson v = ofJson w) : v = w := by
  have same : ∀ {v w : Json}, v.everywhere Json.isSigned = true → w.everywhere Json.isSigned = true →
      ofJson v = ofJson w → v.shape = w.shape := fun hv hw h => by
    rw [← shape_ofJson (Json.test_of_everywhere hv), h, shape_ofJson (Json.test_of_everywhere hw)]
  have hshape := same hv hw h
  induction v using Json.induct generalizing w with
  | arr items ih =>
    cases w with
    | arr items' =>
      rw [ofJson, ofJson, ofItems_eq_map, ofItems_eq_map] at h
      have hitems : items = items' := eq_of_map_eq (fun a ha b hb hab => by
        have hsigned := Json.everywhere_of_mem_items hv a ha
        have hsigned' := Json.everywhere_of_mem_items hw b hb
        exact ih a ha hsigned hsigned' hab (same hsigned hsigned' hab)) (Value.list.inj h)
      rw [hitems]
    | _ => simp [Json.shape] at hshape
  | obj fields ih =>
    cases w with
    | obj fields' =>
      rw [ofJson, ofJson, ofFields_eq_map, ofFields_eq_map] at h
      have hfields : fields = fields' := eq_of_map_eq (fun d hd e he hde => by
        have hsigned := Json.everywhere_of_mem_fields hv d hd
        have hsigned' := Json.everywhere_of_mem_fields hw e he
        obtain ⟨hkey, hvalue⟩ := Prod.mk.inj hde
        exact Prod.ext hkey (ih d hd hsigned hsigned' hvalue (same hsigned hsigned' hvalue)))
          (Value.map.inj h)
      rw [hfields]
    | _ => simp [Json.shape] at hshape
  | _ => exact Json.eq_of_shape_eq hshape (by simp) (by simp)

end Value

/-! ## Statements -/

variable {σ : Type}

/-- The database that writes down what it hears. -/
def Server.recorded (server : Server σ) : Server (σ × List Message) where
  answer := fun m (s, log) =>
    let (response, s) := server.answer m s
    (response, s, log ++ [m])

/-- A message that is sent is written down last. -/
lemma send_recorded (server : Server σ) (m : Message) (c : Client (σ × List Message)) :
    ∃ response s, c.send server.recorded m = (response, { c with server := (s, c.server.2 ++ [m]) }) :=
  ⟨_, _, rfl⟩

/-- **What a database hears of a statement** is the same message each time that it is sent.

**Proof sketch.** Induction on the attempts that are left.  The message is sent once; a success or a failure that is
final ends it there.  After any other failure the same message is sent again, as often as the hypothesis says, which
is once less than allowed. -/
theorem log_attempt (server : Server σ) (statement : String) (params : Params) (more : Nat)
    (c : Client (σ × List Message)) :
    ∃ times, 1 ≤ times ∧ times ≤ more + 1 ∧
      (attempt server.recorded statement params more c).2.server.2 =
        c.server.2 ++ List.replicate times (.run statement (wireParams params)) := by
  induction more generalizing c with
  | zero =>
    obtain ⟨response, s, hsend⟩ := send_recorded server (.run statement (wireParams params)) c
    refine ⟨1, le_rfl, le_rfl, ?_⟩
    rw [attempt, hsend]
    cases response <;> rfl
  | succ more ih =>
    obtain ⟨response, s, hsend⟩ := send_recorded server (.run statement (wireParams params)) c
    rw [attempt, hsend]
    cases response with
    | success fields records => exact ⟨1, le_rfl, by omega, rfl⟩
    | failure code message =>
      dsimp only
      split_ifs
      · -- once more than the attempts that follow
        obtain ⟨times, hpos, hle, hlog⟩ :=
          ih { c with server := (s, c.server.2 ++ [.run statement (wireParams params)]) }
        refine ⟨times + 1, by omega, by omega, ?_⟩
        rw [hlog, List.append_assoc, List.replicate_succ]
        rfl
      · exact ⟨1, le_rfl, by omega, rfl⟩

/-- **Values and parameters arrive as they were.**  Take JSON values whose integers, at whatever depth, fit a word
with a sign.  Two of them that become equal were equal.  What is seen of such a value stays the same at every place
in it: null, truth values, integers apart from other numbers, texts, the lengths and the items of lists, and the keys
and the fields of tables.  Hence two of them that cannot be told apart on the wire, even if the order of the fields
does not count there, were equal.  The parameters of a statement are sent with each name bound to its own value, and
a statement reaches a database with these parameters only.

**Proof sketch.** A conversion keeps what is seen at each place, and integers that fit a word do not become other
numbers.  If two values are seen alike after it, they are therefore seen alike before it, at every place; and a
value with ordered keys is known from what is seen of it.  The parameters are the fields of a table, and a database
hears nothing else with a statement. -/
theorem Value.ofJson_loses_nothing :
    (∀ v w : Json, v.everywhere Json.isSigned = true → w.everywhere Json.isSigned = true →
      Value.ofJson v = Value.ofJson w → v = w) ∧
    (∀ (v : Json) (path : List Json.Step), v.everywhere Json.isSigned = true →
      (Value.ofJson v).shapeAt? path = v.shapeAt? path) ∧
    (∀ v w : Json, v.everywhere Json.isSigned = true → w.everywhere Json.isSigned = true →
      v.everywhere Json.isOrdered = true → w.everywhere Json.isOrdered = true →
      (∀ path, (Value.ofJson v).shapeAt? path = (Value.ofJson w).shapeAt? path) → v = w) ∧
    (∀ (params : Params) (name : String),
      Table.get? name (wireParams params) = (params.get? name).map Value.ofJson) ∧
    ∀ (σ : Type) (server : Server σ) (statement : String) (params : Params) (more : Nat)
      (c : Client (σ × List Message)),
      ∃ times, 1 ≤ times ∧ times ≤ more + 1 ∧
        (attempt server.recorded statement params more c).2.server.2 =
          c.server.2 ++ List.replicate times (.run statement (wireParams params)) := by
  refine ⟨fun v w => Value.ofJson_inj, fun v path hv => Value.shapeAt?_ofJson hv path, ?_,
    Value.get?_ofFields, fun σ => log_attempt⟩
  intro v w hv hw hordered hordered' h
  refine Json.eq_of_shapeAt?_eq hordered hordered' fun path => ?_
  rw [← Value.shapeAt?_ofJson hv, ← Value.shapeAt?_ofJson hw, h]

/-- The integer 2 and the number 2, at the same place in two tables, stay apart. -/
theorem Value.ofJson_loses_nothing_two :
    let v : Json := .obj [("line", .arr [.int 2]), ("name", .null)]
    let w : Json := .obj [("line", .arr [.float ⟨0x4000000000000000⟩]), ("name", .null)]
    (v.everywhere Json.isSigned = true ∧ w.everywhere Json.isSigned = true ∧
      v.everywhere Json.isOrdered = true ∧ w.everywhere Json.isOrdered = true) ∧
      Value.ofJson v ≠ Value.ofJson w ∧
      (Value.ofJson v).shapeAt? [.field "line", .item 0] = some (.int 2) ∧
      ¬ ∀ path, (Value.ofJson v).shapeAt? path = (Value.ofJson w).shapeAt? path := by
  intro v w
  have hv : v.everywhere Json.isSigned = true := by decide
  have hw : w.everywhere Json.isSigned = true := by decide
  have hordered : v.everywhere Json.isOrdered = true := by decide
  have hordered' : w.everywhere Json.isOrdered = true := by decide
  have hne : v ≠ w := by simp [v, w]
  exact ⟨⟨hv, hw, hordered, hordered'⟩, fun h => hne (Value.ofJson_loses_nothing.1 v w hv hw h),
    (Value.ofJson_loses_nothing.2.1 v [.field "line", .item 0] hv).trans rfl,
    fun h => hne (Value.ofJson_loses_nothing.2.2.1 v w hv hw hordered hordered' h)⟩

/-- An integer out of range cannot be told from a number. -/
example : Value.ofJson (.int 9223372036854775808) = Value.ofJson (.float ⟨0x43E0000000000000⟩) := rfl

end Bolt

end CodeAtlas
