-- SUMMARY: `agents/_llm.py`: building the chat model, what one LLM call of a node can do, and the Langfuse callback.
import ResearchSynthesis.Agents.Calls
import ResearchSynthesis.Observability

/-!
# LLM plumbing

What an LLM call does is decided outside the code. A node builds its chat model,
asks for its Langfuse callback, and invokes the model once; `LlmCall` holds the
answers it gets.
-/

namespace ResearchSynthesis
open Python

structure UsageMetadata where
  inputTokens : Int
  outputTokens : Int

structure AIMessage where
  content : Json
  usageMetadata : Option UsageMetadata

/-- What a structured call returns under `include_raw=True`. `parsed` holds an
    object of the requested class or counts as absent, and so does `raw`. -/
structure IncludeRaw (α : Type) where
  raw : Option AIMessage
  parsed : Option α
  parsingError : Option Exn

/-- The arguments of `ChatAnthropic`. -/
structure ChatModel where
  model : Str
  apiKey : Str
  maxTokens : Nat

/-- The world's side of one node's LLM call. -/
structure LlmCall (α : Type) where
  /-- What building the chat model does, its structured output included. -/
  chatModel : ChatModel → Except Exn Unit := fun _ => .ok ()
  langfuse : Langfuse := {}
  invoke : List Message → Except Exn α
  latencyMs : Int

/-- Build a chat model with the key passed explicitly. -/
def buildChatModel (settings : Settings) (modelName : Str) (maxTokens : Nat)
    (chatModel : ChatModel → Except Exn Unit) : Except Exn Unit :=
  chatModel { model := modelName, apiKey := settings.anthropicApiKey, maxTokens }

/-- The callbacks a call is configured with. -/
structure RunnableConfig where
  callbacks : List Unit := []

/-- The Langfuse callback when configured, else an empty config. -/
def langfuseConfig (settings : Settings) (langfuse : Langfuse) : Except Exn RunnableConfig := do
  match ← getLangfuseClient settings langfuse with
  | none => return {}
  | some _ =>
    let handler ← langfuse.callbackHandler
    return { callbacks := [handler] }

/-- What a node makes before its call: the chat model, then the config. -/
def LlmCall.setup {α : Type} (call : LlmCall α) (settings : Settings) (modelName : Str)
    (maxTokens : Nat) : Except Exn RunnableConfig := do
  buildChatModel settings modelName maxTokens call.chatModel
  langfuseConfig settings call.langfuse

/-- Prompt the model. -/
def LlmCall.ainvoke {α : Type} (call : LlmCall α) (messages : List Message) : Calling α :=
  { outcome := call.invoke messages, prompts := [messages] }

theorem within_ainvoke {α : Type} (call : LlmCall α) (messages : List Message) :
    (call.ainvoke messages).Within 0 1 :=
  ⟨le_rfl, le_rfl⟩

/-- The Langfuse constructors return. -/
def Langfuse.Constructs (langfuse : Langfuse) : Prop :=
  langfuse.client = .ok () ∧ langfuse.callbackHandler = .ok ()

theorem langfuseConfig_of_constructs {settings : Settings} {langfuse : Langfuse}
    (h : langfuse.Constructs) : ∃ config, langfuseConfig settings langfuse = .ok config := by
  unfold langfuseConfig getLangfuseClient
  rw [h.1, h.2]
  split
  · exact ⟨_, rfl⟩
  · exact ⟨_, rfl⟩

end ResearchSynthesis
