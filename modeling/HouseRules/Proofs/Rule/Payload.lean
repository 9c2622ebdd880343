import HouseRules.Environment
import HouseRules.Proofs.Json.RoundTrip
import HouseRules.Proofs.Text.Decoding

/-! What a rule reads on its standard input: the call as it was made. The bytes are the text of one
object with five fields, and every part of the call can be read back from them. -/

namespace HouseRules

namespace Invocation

variable {i j : Invocation}

/-- The fields of a call in the order in which they are written. -/
def written (i : Invocation) : Fields := [
  ("rule_id", .string i.ruleId),
  ("module_dir", .string i.moduleDir),
  ("module", .string i.moduleName),
  ("function", .string i.function),
  ("kwargs", .object i.arguments)]

/-- The fields of a call in the order of their names. -/
def fields (i : Invocation) : Fields := [
  ("function", .string i.function),
  ("kwargs", .object i.arguments),
  ("module", .string i.moduleName),
  ("module_dir", .string i.moduleDir),
  ("rule_id", .string i.ruleId)]

theorem payload_eq (i : Invocation) :
    i.payload = '\x7b' :: (Json.writeFields i.written ++ ['\x7d']) := rfl

theorem ofList_written (i : Invocation) : Fields.ofList i.written = i.fields := rfl

theorem exact_of_mem_written (h : (Value.object i.arguments).IsExact) :
    ∀ f ∈ i.written, f.2.IsExact := by
  simp only [written, List.mem_cons, List.not_mem_nil, or_false, forall_eq_or_imp, forall_eq]
  exact ⟨.string _, .string _, .string _, .string _, h⟩

/-- Calls with the same fields are the same. -/
theorem fields_injective (h : i.fields = j.fields) : i = j := by
  obtain ⟨ruleId, moduleDir, moduleName, function, arguments⟩ := i
  obtain ⟨ruleId', moduleDir', moduleName', function', arguments'⟩ := j
  simp only [fields, List.cons.injEq, Prod.mk.injEq, Value.string.injEq, Value.object.injEq,
    true_and, and_true] at h
  obtain ⟨rfl, rfl, rfl, rfl, rfl⟩ := h
  rfl

/-- A call is read back from its payload. -/
theorem read?_payload (h : (Value.object i.arguments).IsExact) :
    Json.read? (String.ofList i.payload) = some (.object i.fields) := by
  rw [payload_eq, Json.read?_writeFields (exact_of_mem_written h), ofList_written]

theorem le_of_mem_payload (h : (Value.object i.arguments).IsExact) {c : Char}
    (mem : c ∈ i.payload) : 32 ≤ c.toNat := by
  rw [payload_eq, List.mem_cons, List.mem_append, List.mem_singleton] at mem
  obtain rfl | mem | rfl := mem
  · decide
  · exact Json.le_of_mem_writeFields (exact_of_mem_written h) mem
  · decide

end Invocation

/-! ### Standard input -/

namespace Environment

variable {σ : Type}

/-- A call is read back from the bytes that its process is given, and no control character is
among them. So different calls are given different bytes. -/
theorem ruleCommand_input_readBack (e : Environment σ) (i : Invocation)
    (exact : (Value.object i.arguments).IsExact) :
    (∀ b ∈ (e.ruleCommand i).input, 0x20 ≤ b.toNat) ∧
      (Text.decode? (e.ruleCommand i).input).bind Json.read? = some (.object [
        ("function", .string i.function),
        ("kwargs", .object i.arguments),
        ("module", .string i.moduleName),
        ("module_dir", .string i.moduleDir),
        ("rule_id", .string i.ruleId)]) ∧
      ∀ j : Invocation, (Value.object j.arguments).IsExact →
        (e.ruleCommand j).input = (e.ruleCommand i).input → j = i := by
  have read (k : Invocation) (hk : (Value.object k.arguments).IsExact) :
      (Text.decode? (e.ruleCommand k).input).bind Json.read? = some (.object k.fields) := by
    rw [ruleCommand, Text.decode?_bytesOf, Option.bind_some, Invocation.read?_payload hk]
  refine ⟨fun b mem => ?_, read i exact, fun j hj same => ?_⟩
  · refine Text.le_of_mem_bytesOf (by decide) (fun c inside => ?_) mem
    rw [String.toList_ofList] at inside
    exact Invocation.le_of_mem_payload exact inside
  · have fields : some (Value.object j.fields) = some (.object i.fields) := by
      rw [← read j hj, same, read i exact]
    exact Invocation.fields_injective (Value.object.inj (Option.some.inj fields))

/-- A call with a quote, a line break and the greatest integer in its arguments. -/
theorem ruleCommand_input_readBack_quoted :
    let e : Environment World := ⟨⟨"/c"⟩, "python3", none, fun _ w => (.cannotStart, w)⟩
    let i : Invocation := ⟨"r", "/m", "a", "f",
      [("limit", .int 18446744073709551615), ("text", .array [.string "\"\n", .null])]⟩
    (∀ b ∈ (e.ruleCommand i).input, 0x20 ≤ b.toNat) ∧
      (Text.decode? (e.ruleCommand i).input).bind Json.read? = some (.object [
        ("function", .string "f"),
        ("kwargs", .object i.arguments),
        ("module", .string "a"),
        ("module_dir", .string "/m"),
        ("rule_id", .string "r")]) := by
  intro e i
  have exact : (Value.object i.arguments).IsExact := by
    have text : (Value.array [.string "\"\n", .null]).IsExact :=
      .array (List.forall_mem_cons.2 ⟨.string _, List.forall_mem_singleton.2 .null⟩)
    exact .object (List.pairwise_pair.2 (by decide)) (List.forall_mem_cons.2
      ⟨.int (by decide) (by decide), List.forall_mem_singleton.2 text⟩)
  obtain ⟨low, read, -⟩ := ruleCommand_input_readBack e i exact
  exact ⟨low, read⟩

end Environment

end HouseRules
