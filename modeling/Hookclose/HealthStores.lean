import Hookclose.JsonFiles
import Hookclose.Objects
import Hookclose.Programs
import Hookclose.ProviderState

/-!
The stores of provider health: `InMemoryProviderStateStore`, which keeps copies of the
live objects, and `RedisProviderStateStore`, which keeps their JSON in the fields of a
hash. Health objects are mutable, so both are programs over a memory; a store of either
kind is handed a reference and hands out references. The client of Redis is a parameter,
and so are `isoformat` and `fromisoformat`.
-/
namespace Hookclose.HealthStores
open Hookclose.ProviderState Hookclose.Objects Hookclose.Programs
open Hookclose.Dictionaries (assign dictOf)

/-! ### A health record as JSON -/

/-- What may be raised while a record is read back. `unchecked` stands for a value of
    another type than the record declares, which the code would take without a check. -/
inductive LoadError
  | jsonDecodeError
  | unicodeDecodeError
  | typeError
  | keyError (key : String)
  | valueError
  | unchecked (key : String)
  deriving DecidableEq, Repr

section
variable (isoformat : Instant → String) (fromisoformat : String → Option Instant)

def timestamp (instant : Option Instant) : Json :=
  match instant with
  | some instant => .str (isoformat instant)
  | none => .null

def errorText (text : Option String) : Json :=
  match text with
  | some text => .str text
  | none => .null

def healthToDict (health : ProviderHealth) : Dict :=
  [("status",.str health.status.value),
   ("consecutive_failures",.int health.consecutiveFailures),
   ("cooldown_until",timestamp isoformat health.cooldownUntil),
   ("tokens_used",.int health.tokensUsed),
   ("total_requests",.int health.totalRequests),
   ("total_failures",.int health.totalFailures),
   ("last_error",errorText health.lastError),
   ("last_used_at",timestamp isoformat health.lastUsedAt)]

/-- `ProviderStatus(..)`: the member with this value. -/
def statusOf (value : String) : Option ProviderStatus :=
  [.available,.rateLimited,.offline,.cooldown,.failed].find? (fun status => decide (status.value = value))

def readStatus (data : Dict) : Except LoadError ProviderStatus :=
  match Dictionaries.get "status" data with
  | none => .error (.keyError "status")
  | some value =>
    match statusOf value.toText with
    | some status => .ok status
    | none => .error .valueError

def readCount (key : String) (data : Dict) : Except LoadError Int :=
  match Dictionaries.get key data with
  | none => .error (.keyError key)
  | some (.int count) => .ok count
  | some _ => .error (.unchecked key)

/-- `_dt`: whatever is not a string counts as no time. -/
def readTime (key : String) (data : Dict) : Except LoadError (Option Instant) :=
  match Dictionaries.get key data with
  | some (.str text) =>
    match fromisoformat text with
    | some instant => .ok (some instant)
    | none => .error .valueError
  | _ => .ok none

def readText (key : String) (data : Dict) : Except LoadError (Option String) :=
  match Dictionaries.get key data with
  | none => .ok none
  | some .null => .ok none
  | some (.str text) => .ok (some text)
  | some _ => .error (.unchecked key)

def healthFromDict (data : Dict) : Except LoadError ProviderHealth := do
  let status ← readStatus data
  let consecutiveFailures ← readCount "consecutive_failures" data
  let cooldownUntil ← readTime fromisoformat "cooldown_until" data
  let tokensUsed ← readCount "tokens_used" data
  let totalRequests ← readCount "total_requests" data
  let totalFailures ← readCount "total_failures" data
  let lastError ← readText "last_error" data
  let lastUsedAt ← readTime fromisoformat "last_used_at" data
  return { status,consecutiveFailures,cooldownUntil,tokensUsed,totalRequests,totalFailures,lastError,lastUsedAt }

/-! What is written is read back. -/

theorem statusOf_value (status : ProviderStatus) : statusOf status.value = some status := by
  cases status <;> decide

variable {isoformat fromisoformat}

theorem readTime_timestamp (roundTrip : ∀ instant, fromisoformat (isoformat instant) = some instant) {key : String}
    {data : Dict} {instant : Option Instant} (found : Dictionaries.get key data = some (timestamp isoformat instant)) :
    readTime fromisoformat key data = .ok instant := by
  rw [readTime,found]
  cases instant with
  | none => rfl
  | some instant => simp [timestamp,roundTrip]

theorem readText_errorText {key : String} {data : Dict} {text : Option String}
    (found : Dictionaries.get key data = some (errorText text)) :
    readText key data = .ok text := by
  rw [readText,found]
  cases text <;> rfl

/-- Reading a record back gives the record. -/
theorem healthFromDict_healthToDict (roundTrip : ∀ instant, fromisoformat (isoformat instant) = some instant)
    (health : ProviderHealth) : healthFromDict fromisoformat (healthToDict isoformat health) = .ok health := by
  have status : readStatus (healthToDict isoformat health) = .ok health.status := by
    simp [readStatus,healthToDict,Dictionaries.get,Json.toText,statusOf_value]
  have failures : readCount "consecutive_failures" (healthToDict isoformat health) = .ok health.consecutiveFailures := rfl
  have cooldown : readTime fromisoformat "cooldown_until" (healthToDict isoformat health) = .ok health.cooldownUntil :=
    readTime_timestamp roundTrip rfl
  have tokens : readCount "tokens_used" (healthToDict isoformat health) = .ok health.tokensUsed := rfl
  have requests : readCount "total_requests" (healthToDict isoformat health) = .ok health.totalRequests := rfl
  have failed : readCount "total_failures" (healthToDict isoformat health) = .ok health.totalFailures := rfl
  have text : readText "last_error" (healthToDict isoformat health) = .ok health.lastError := readText_errorText rfl
  have used : readTime fromisoformat "last_used_at" (healthToDict isoformat health) = .ok health.lastUsedAt :=
    readTime_timestamp roundTrip rfl
  simp only [healthFromDict,status,failures,cooldown,tokens,requests,failed,text,used]
  rfl

/-- JSON text carries a record. -/
theorem carried_healthToDict (float : String → String × FloatValue) (health : ProviderHealth) :
    JsonText.Carried float (.dict (healthToDict isoformat health)) := by
  have time : ∀ instant, JsonText.Carried float (timestamp isoformat instant) := by
    intro instant
    cases instant <;> simp [timestamp,JsonText.Carried]
  have text : JsonText.Carried float (errorText health.lastError) := by
    cases health.lastError <;> simp [errorText,JsonText.Carried]
  rw [JsonText.Carried]
  refine ⟨by simp [healthToDict],?_⟩
  simp [healthToDict,JsonText.CarriedEntries,JsonText.Carried,time,text]

end

/-! ### The client of Redis -/

/-- A text as the client returns it: decoded, or as its UTF-8 bytes. -/
inductive RawReply
  | text (content : String)
  | bytes (content : ByteArray)

/-- `value.decode() if isinstance(value, bytes) else value`. -/
def RawReply.decode : RawReply → Except LoadError String
  | .text content => .ok content
  | .bytes content =>
    match String.fromUTF8? content with
    | some decoded => .ok decoded
    | none => .error .unicodeDecodeError

/-- A reply is this text, in either form. -/
def Carries (reply : RawReply) (content : String) : Prop := reply = .text content ∨ reply = .bytes content.toUTF8

theorem Carries.decode {reply : RawReply} {content : String} (carries : Carries reply content) :
    reply.decode = .ok content := by
  rcases carries with rfl | rfl
  · rfl
  · rw [RawReply.decode,JsonFiles.fromUTF8_written]

/-- What a store asks of a client whose server is in a state of type `σ`. -/
structure HashClient (σ : Type) where
  hset : (key field value : String) → σ → σ
  hget : (key field : String) → σ → Option RawReply × σ
  hgetall : (key : String) → σ → List (RawReply × RawReply) × σ

/-! ### Stores -/

/-- The objects of the process, and what a store keeps. -/
structure World (σ : Type) where
  memory : Memory ProviderHealth
  store : σ

abbrev Program (σ α : Type) := EStateM LoadError (World σ) α

/-- The protocol of a store; objects are passed by reference. -/
structure ProviderStateStore (σ : Type) where
  save : (name : String) → (health : Nat) → Program σ Unit
  load : (name : String) → Program σ (Option Nat)
  loadAll : Program σ (List (String × Nat))

variable {σ : Type}

/-- A constructor call. -/
def construct (health : ProviderHealth) : Program σ Nat := fun w =>
  let allocated := w.memory.alloc health
  .ok allocated.1 { w with memory := allocated.2 }

/-- `ProviderHealth.snapshot`: an independent copy. -/
def snapshot (health : Nat) : Program σ Nat := fun w => construct (w.memory.content health) w

/-- The store that keeps copies, by name. -/
def inMemoryProviderStateStore : ProviderStateStore (List (String × Nat)) where
  save name health := do
    let copy ← snapshot health
    modify (fun w => { w with store := assign name copy w.store })
  load name := do
    match Dictionaries.get name (← EStateM.get).store with
    | none => return none
    | some stored => return some (← snapshot stored)
  loadAll := do
    let copies ← (← EStateM.get).store.mapM (fun entry => do return (entry.1,← snapshot entry.2))
    return dictOf copies

section
variable (isoformat : Instant → String) (fromisoformat : String → Option Instant) (float : String → String × FloatValue)

/-- `json.loads` of a reply. Bytes are read as UTF-8, the encoding that is detected for
    any text that begins with two ASCII characters other than NUL. -/
def loads (raw : RawReply) : Except LoadError Json := do
  let text ← raw.decode
  match JsonText.loads float text with
  | some value => return value
  | none => throw .jsonDecodeError

/-- `health_from_dict(json.loads(raw))`. -/
def decodeHealth (raw : RawReply) : Except LoadError ProviderHealth := do
  match ← loads float raw with
  | .dict data => healthFromDict fromisoformat data
  | _ => throw .typeError

def decodeEntry (entry : RawReply × RawReply) : Except LoadError (String × ProviderHealth) := do
  let name ← entry.1.decode
  let health ← decodeHealth fromisoformat float entry.2
  return (name,health)

variable {isoformat fromisoformat float}

theorem loads_carried {raw : RawReply} {content : String} (carries : Carries raw content) {value : Json}
    (read : JsonText.loads float content = some value) : loads float raw = .ok value := by
  simp only [loads,carries.decode]
  simp [bind,Except.bind,read,pure,Except.pure]

theorem decodeHealth_dict {raw : RawReply} {data : Dict} (read : loads float raw = .ok (.dict data)) :
    decodeHealth fromisoformat float raw = healthFromDict fromisoformat data := by
  simp only [decodeHealth,read]
  rfl

/-- The reply that carries a saved record is read as that record. -/
theorem decodeHealth_saved (roundTrip : ∀ instant, fromisoformat (isoformat instant) = some instant)
    {raw : RawReply} {health : ProviderHealth}
    (carries : Carries raw (JsonText.dumps (.dict (healthToDict isoformat health)))) :
    decodeHealth fromisoformat float raw = .ok health := by
  have read := loads_carried carries (JsonText.loads_dumps float (carried_healthToDict float health))
  rw [decodeHealth_dict read,healthFromDict_healthToDict roundTrip health]

variable (isoformat fromisoformat float)
variable (client : HashClient σ) (key : String)

/-- A read through the client. -/
def ask (query : σ → α × σ) : Program σ α := fun w =>
  let answered := query w.store
  .ok answered.1 { w with store := answered.2 }

/-- The store that keeps the JSON of each record in a field of the hash `key`. -/
def redisProviderStateStore : ProviderStateStore σ where
  save name health := do
    modify (fun w =>
      let text := JsonText.dumps (.dict (healthToDict isoformat (w.memory.content health)))
      { w with store := client.hset key name text w.store })
  load name := do
    match ← ask (client.hget key name) with
    | none => return none
    | some raw =>
      let health ← lift (decodeHealth fromisoformat float raw)
      return some (← construct health)
  loadAll := do
    let raw ← ask (client.hgetall key)
    let loaded ← raw.mapM (fun entry => do
      let decoded ← lift (decodeEntry fromisoformat float entry)
      return (decoded.1,← construct decoded.2))
    return dictOf loaded

end

end Hookclose.HealthStores
