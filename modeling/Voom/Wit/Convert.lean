-- SUMMARY: Events and event results over the plugin boundary, and what comes back from it.
import Voom.Domain.Events
import Voom.Wit.EventCodecs

/-!
# Conversion at the plugin boundary

Events cross as MessagePack payloads beside the name of their kind, the results of plugins as such
events with their data and execution detail as JSON texts.
-/

namespace Voom.Wit

open Lib

/-! ## Execution detail as JSON -/

namespace ExecutionDetail

/-- The object of a detail; the numbers of one are in the range of their types. -/
def toJson (d : ExecutionDetail) : Except String Json :=
  if d.durationMs < 2 ^ 64 ∧ ∀ code ∈ d.exitCode, Codec.InRange 32 code then
    .ok (.object [("command", .string d.command),
      ("exit_code", (d.exitCode.map fun code => Json.number (.int code)).getD .null),
      ("stderr_tail", .string d.stderrTail), ("duration_ms", .ofNat d.durationMs)])
  else .error "number out of range"

def exitCodeOfJson : Option Json → Except String (Option Int)
  | none | some .null => .ok none
  | some v =>
    match v.asI64 with
    | some code =>
      if Codec.InRange 32 code then .ok (some code) else .error "invalid value: expected i32"
    | none => .error "invalid type: expected i32"

def ofJson (v : Json) : Except String ExecutionDetail :=
  match (v.get "command").bind Json.asStr, (v.get "stderr_tail").bind Json.asStr,
      (v.get "duration_ms").bind Json.asU64 with
  | some command, some stderrTail, some durationMs =>
    (exitCodeOfJson (v.get "exit_code")).map fun exitCode =>
      { command, exitCode, stderrTail, durationMs }
  | _, _, _ => .error "missing or invalid field of ExecutionDetail"

end ExecutionDetail

/-! ## The boundary -/

/-- What an event handler returns. -/
structure EventResult where
  pluginName : String
  producedEvents : List Event
  data : Option Json
  claimed : Bool
  executionError : Option String
  executionDetail : Option ExecutionDetail
  deriving DecidableEq, Repr

/-- Serialized form of an event result for the boundary. -/
structure WasmEventResult (env : WitEnv) where
  pluginName : String
  producedEvents : List (String × env.Bytes)
  data : Option env.Bytes
  claimed : Bool
  executionError : Option String
  executionDetail : Option env.Bytes

section

variable (env : WitEnv)

/-- `rmp_serde::to_vec` of an event. -/
def encodeEvent (event : Event) : Except String env.Bytes := (writeEvent env event).map env.toVec

/-- `rmp_serde::from_slice` of a payload. -/
def decodeEvent (payload : env.Bytes) : Except String Event :=
  env.fromSlice payload >>= readEvent env

def eventToWasm (event : Event) : Except VoomError (String × env.Bytes) := do
  let payload ← (encodeEvent env event).mapError fun e => .wasm ("failed to serialize event: " ++ e)
  .ok (event.eventType, payload)

def eventFromWasm (eventType : String) (payload : env.Bytes) : Except VoomError Event := do
  let event ← (decodeEvent env payload).mapError fun e =>
    .wasm ("failed to deserialize event: " ++ e)
  if event.eventType ≠ eventType then
    .error (.wasm ("event type mismatch: declared='" ++ eventType ++ "' actual='" ++
      event.eventType ++ "'"))
  else .ok event

def eventResultToWasm (result : EventResult) : Except VoomError (WasmEventResult env) := do
  let produced ← result.producedEvents.mapM (eventToWasm env)
  let detail ← (result.executionDetail.mapM ExecutionDetail.toJson).mapError fun e =>
    .wasm ("failed to serialize execution detail: " ++ e)
  .ok
    { pluginName := result.pluginName
      producedEvents := produced
      data := result.data.map env.jsonToVec
      claimed := result.claimed
      executionError := result.executionError
      executionDetail := detail.map env.jsonToVec }

def eventResultFromWasm (wasmResult : WasmEventResult env) : Except VoomError EventResult := do
  let events ← wasmResult.producedEvents.mapM fun evt => eventFromWasm env evt.1 evt.2
  let jsonData ← (wasmResult.data.mapM env.jsonFromSlice).mapError fun e =>
    .wasm ("failed to deserialize JSON: " ++ e)
  let detail ← (wasmResult.executionDetail.mapM fun d =>
      env.jsonFromSlice d >>= ExecutionDetail.ofJson).mapError fun e =>
    .wasm ("failed to deserialize execution detail: " ++ e)
  .ok
    { pluginName := wasmResult.pluginName
      producedEvents := events
      data := jsonData
      claimed := wasmResult.claimed
      executionError := wasmResult.executionError
      executionDetail := detail }

/-- The result that comes back: its events as they come back, the doubles in its data as they are
read. -/
def EventResult.readBack (result : EventResult) : EventResult :=
  { result with
    producedEvents := result.producedEvents.map Event.readBack
    data := result.data.map (Json.mapFloats env.rereadFloat) }

end

variable {env : WitEnv}

/-! ## Events -/

theorem decodeEvent_of_encodeEvent {event : Event} {payload : env.Bytes}
    (h : encodeEvent env event = .ok payload) : decodeEvent env payload = .ok event.readBack := by
  obtain ⟨w, hw, rfl⟩ := map_eq_ok.mp h
  unfold decodeEvent
  rw [env.fromSlice_toVec, ok_bind]
  exact readEvent_writeEvent env hw

theorem eventFromWasm_eq_ok {eventType : String} {payload : env.Bytes} {event : Event} :
    eventFromWasm env eventType payload = .ok event ↔
      decodeEvent env payload = .ok event ∧ event.eventType = eventType := by
  unfold eventFromWasm
  constructor
  · intro h
    obtain ⟨decoded, hdecoded, h⟩ := bind_eq_ok.mp h
    split at h
    case isTrue => cases h
    case isFalse htype =>
      cases h
      exact ⟨mapError_eq_ok.mp hdecoded, not_not.mp htype⟩
  · rintro ⟨hdecoded, rfl⟩
    rw [mapError_eq_ok.mpr hdecoded, ok_bind]
    exact if_neg (not_not.mpr rfl)

theorem eventFromWasm_eventToWasm {event : Event} {wasm : String × env.Bytes}
    (h : eventToWasm env event = .ok wasm) :
    eventFromWasm env wasm.1 wasm.2 = .ok event.readBack := by
  obtain ⟨payload, hpayload, h⟩ := bind_eq_ok.mp h
  cases h
  apply eventFromWasm_eq_ok.mpr
  exact ⟨decodeEvent_of_encodeEvent (mapError_eq_ok.mp hpayload), event.readBack_eventType⟩

theorem eventFromWasm_mismatch {eventType : String} {payload : env.Bytes} {event : Event}
    (hdecode : decodeEvent env payload = .ok event) (htype : event.eventType ≠ eventType) :
    eventFromWasm env eventType payload =
      .error (.wasm ("event type mismatch: declared='" ++ eventType ++ "' actual='" ++
        event.eventType ++ "'")) := by
  unfold eventFromWasm
  rw [mapError_eq_ok.mpr hdecode, ok_bind]
  exact if_pos htype

/-! ## Results -/

theorem ExecutionDetail.exitCodeOfJson_of_inRange {code : Option Int}
    (h : ∀ n ∈ code, Codec.InRange 32 n) :
    exitCodeOfJson (some ((code.map fun n => Json.number (.int n)).getD .null)) = .ok code := by
  cases code with
  | none => rfl
  | some n =>
    have hrange := h n rfl
    have hwide : -2 ^ 63 ≤ n ∧ n < 2 ^ 63 := by
      obtain ⟨hlow, hhigh⟩ := hrange
      omega
    have hcode : (Json.number (.int n)).asI64 = some n := if_pos hwide
    simp only [exitCodeOfJson, Option.map_some, Option.getD_some, hcode, if_pos hrange]

/-- A detail is one object without doubles. -/
theorem ExecutionDetail.toJson_plain {d : ExecutionDetail} {v : Json} (h : toJson d = .ok v) :
    v.nesting ≤ 127 ∧ ∀ f, v.mapFloats f = v := by
  unfold toJson at h
  split at h
  case isTrue =>
    cases h
    cases d.exitCode <;>
    · refine ⟨?_, fun _ => rfl⟩
      change 1 ≤ 127
      omega
  case isFalse => cases h

theorem asU64_ofNat {n : Nat} (h : n < 2 ^ 64) : (Json.ofNat n).asU64 = some n := by
  have hint : (n : Int) < 2 ^ 64 := by exact_mod_cast h
  unfold Json.ofNat Json.asU64
  simp only [hint, Int.natCast_nonneg, and_self, if_true, Int.toNat_natCast]

theorem ExecutionDetail.ofJson_of_get {d : ExecutionDetail} {v : Json}
    (hcommand : v.get "command" = some (.string d.command))
    (hstderr : v.get "stderr_tail" = some (.string d.stderrTail))
    {duration : Json} (hduration : v.get "duration_ms" = some duration)
    (hvalue : duration.asU64 = some d.durationMs)
    {code : Json} (hexit : v.get "exit_code" = some code)
    (hcode : exitCodeOfJson (some code) = .ok d.exitCode) : ofJson v = .ok d := by
  simp only [ofJson, hcommand, hstderr, hduration, hvalue, hexit, hcode, Option.bind_some,
    Json.asStr, map_ok]

theorem ExecutionDetail.ofJson_toJson {d : ExecutionDetail} {v : Json} (h : toJson d = .ok v) :
    ofJson v = .ok d := by
  unfold toJson at h
  split at h
  case isTrue hrange =>
    cases h
    exact ofJson_of_get rfl rfl rfl (asU64_ofNat hrange.1) rfl
      (exitCodeOfJson_of_inRange hrange.2)
  case isFalse => cases h

theorem executionDetail_mapM {detail : Option ExecutionDetail} {texts : Option Json}
    (h : detail.mapM ExecutionDetail.toJson = .ok texts) :
    (texts.map env.jsonToVec).mapM (fun d => env.jsonFromSlice d >>= ExecutionDetail.ofJson) =
      .ok detail := by
  cases detail with
  | none =>
    cases h
    rfl
  | some d =>
    obtain ⟨v, hv, rfl⟩ := map_eq_ok.mp h
    obtain ⟨hnesting, hplain⟩ := ExecutionDetail.toJson_plain hv
    have hread := env.jsonFromSlice_jsonToVec v hnesting
    rw [hplain] at hread
    change (env.jsonFromSlice (env.jsonToVec v) >>= ExecutionDetail.ofJson).map some = _
    rw [hread, ok_bind, ExecutionDetail.ofJson_toJson hv, map_ok]

theorem eventResultFromWasm_eventResultToWasm {result : EventResult} {wasm : WasmEventResult env}
    (h : eventResultToWasm env result = .ok wasm)
    (hdata : ∀ v ∈ result.data, v.nesting ≤ 127) :
    eventResultFromWasm env wasm = .ok (result.readBack env) := by
  obtain ⟨produced, hproduced, h⟩ := bind_eq_ok.mp h
  obtain ⟨detail, hdetail, h⟩ := bind_eq_ok.mp h
  cases h
  have hevents : produced.mapM (fun evt => eventFromWasm env evt.1 evt.2) =
      .ok (result.producedEvents.map Event.readBack) :=
    mapM_mapM (fun _ _ => eventFromWasm_eventToWasm) hproduced
  have hjson : (result.data.map env.jsonToVec).mapM env.jsonFromSlice =
      .ok (result.data.map (Json.mapFloats env.rereadFloat)) := by
    cases hresult : result.data with
    | none => rfl
    | some v =>
      have hread := env.jsonFromSlice_jsonToVec v (hdata v hresult)
      exact congrArg (·.map some) hread
  have hback : (detail.map env.jsonToVec).mapM
      (fun d => env.jsonFromSlice d >>= ExecutionDetail.ofJson) = .ok result.executionDetail :=
    executionDetail_mapM (mapError_eq_ok.mp hdetail)
  unfold eventResultFromWasm
  simp only [hevents, hjson, hback, ok_bind]
  rfl

theorem eventResultFromWasm_data_error {wasm : WasmEventResult env} {events : List Event}
    {text : env.Bytes} {e : String}
    (hevents : wasm.producedEvents.mapM (fun evt => eventFromWasm env evt.1 evt.2) = .ok events)
    (hdata : wasm.data = some text) (htext : env.jsonFromSlice text = .error e) :
    eventResultFromWasm env wasm = .error (.wasm ("failed to deserialize JSON: " ++ e)) := by
  have hread : (some text).mapM env.jsonFromSlice = .error e := congrArg (·.map some) htext
  unfold eventResultFromWasm
  rw [hevents, ok_bind, hdata, hread]
  rfl

/-! ## The boundary as a whole -/

/-- What is written at the boundary comes back from it, and a payload of another kind than the
declared one is turned away. -/
theorem boundary_readBack (env : WitEnv) :
    (∀ event wasm, eventToWasm env event = .ok wasm →
      eventFromWasm env wasm.1 wasm.2 = .ok event.readBack) ∧
    (∀ result wasm, eventResultToWasm env result = .ok wasm →
      (∀ v ∈ result.data, v.nesting ≤ 127) →
      eventResultFromWasm env wasm = .ok (result.readBack env)) ∧
    (∀ eventType payload event, decodeEvent env payload = .ok event →
      event.eventType ≠ eventType →
      eventFromWasm env eventType payload =
        .error (.wasm ("event type mismatch: declared='" ++ eventType ++ "' actual='" ++
          event.eventType ++ "'"))) :=
  ⟨fun _ _ => eventFromWasm_eventToWasm, fun _ _ => eventResultFromWasm_eventResultToWasm,
    fun _ _ _ => eventFromWasm_mismatch⟩

/-! ## A boundary -/

/-- The double 0.9452706955539223 is read back as its neighbour: without its point the text is an
odd number above 2^53, which is rounded before it is divided by the power of ten. -/
def rereadSample (x : Rat) : Rat :=
  if x = 2128560376130447 / 2251799813685248 then 8514241504521789 / 9007199254740992 else x

/-- A boundary whose bytes are the values themselves, with the depth limit of JSON texts. -/
def plainEnv : WitEnv where
  uuid := .unsigned 128
  uuidPresent := inferInstance
  time := .unsigned 64
  timePresent := inferInstance
  newUuid := 0
  Bytes := Wire F64 ⊕ Json
  toVec := .inl
  fromSlice
    | .inl w => .ok w
    | .inr _ => .error "not a MessagePack value"
  fromSlice_toVec _ := rfl
  jsonToVec := .inr
  jsonFromSlice
    | .inl _ => .error "expected value at line 1 column 1"
    | .inr v =>
      if v.nesting ≤ 127 then .ok (v.mapFloats rereadSample)
      else .error "recursion limit exceeded"
  rereadFloat := rereadSample
  jsonFromSlice_jsonToVec _ h := if_pos h

def customJob (name : String) : Event :=
  .jobEnqueueRequested
    { jobType := .custom name, priority := 100, payload := some .null, requester := "cleaner" }

/-- The result of a run of an executor, with some data. -/
def resultWith (data : Json) : EventResult :=
  { pluginName := "ffmpeg-executor"
    producedEvents := [customJob "cleanup"]
    data := some data
    claimed := true
    executionError := none
    executionDetail := some
      { command := "ffmpeg -i a.mkv b.mkv", exitCode := some 1, stderrTail := "", durationMs := 40 } }

/-- Arrays around a value. -/
def nested : Nat → Json → Json
  | 0, v => v
  | n + 1, v => .array [nested n v]

theorem nesting_nested (n : Nat) : (nested n .null).nesting = n := by
  induction n with
  | zero => rfl
  | succ n ih =>
    simp only [nested, Json.nesting, Json.nestingItems, ih]
    omega

theorem plainEnv_deep {v : Json} (h : 127 < v.nesting) :
    plainEnv.jsonFromSlice (.inr v) = .error "recursion limit exceeded" :=
  if_neg (Nat.not_le.mpr h)

/-- A custom job of the name of a built-in type comes back as that type, a double in the data of a
result as its neighbour, and data nested too deep does not come back at all. -/
theorem boundary_changes :
    (∃ wasm, eventToWasm plainEnv (customJob "scan") = .ok wasm ∧
      eventFromWasm plainEnv wasm.1 wasm.2 =
        .ok (.jobEnqueueRequested
          { jobType := .scan, priority := 100, payload := none, requester := "cleaner" })) ∧
    (∃ wasm result, eventResultToWasm plainEnv
        (resultWith (.number (.float (2128560376130447 / 2251799813685248)))) = .ok wasm ∧
      eventResultFromWasm plainEnv wasm = .ok result ∧
      result.data = some (.number (.float (8514241504521789 / 9007199254740992)))) ∧
    ∃ wasm, eventResultToWasm plainEnv (resultWith (nested 128 .null)) = .ok wasm ∧
      eventResultFromWasm plainEnv wasm =
        .error (.wasm ("failed to deserialize JSON: " ++ "recursion limit exceeded")) := by
  refine ⟨⟨_, rfl, rfl⟩, ⟨_, _, rfl, rfl, ?_⟩, _, rfl, ?_⟩
  · exact congrArg (fun x => some (Json.number (.float x))) (if_pos rfl)
  · refine eventResultFromWasm_data_error rfl rfl (plainEnv_deep ?_)
    rw [nesting_nested]
    omega

theorem boundary_readBack_cleanup :
    ∃ wasm, eventResultToWasm plainEnv (resultWith (nested 2 .null)) = .ok wasm ∧
      eventResultFromWasm plainEnv wasm = .ok ((resultWith (nested 2 .null)).readBack plainEnv) := by
  refine ⟨_, rfl, ?_⟩
  apply (boundary_readBack plainEnv).2.1 _ _ rfl
  intro v hv
  cases hv
  decide

end Voom.Wit
