import CharlieBot.Lib.Json

/-!
# The wire names of events

Every raw event is a dict whose `type` field is one of these names; a few
name a field instead. Producers and readers share them.
-/

/-- A raw chat event. -/
abbrev Event := Dict

namespace ET

def assistant := "assistant"
def user := "user"
def error := "error"
def result := "result"
def system := "system"
def toolUse := "tool_use"
def toolResult := "tool_result"
def thinking := "thinking"
def fileWrite := "file_write"

def masterDone := "master_done"
def assistantError := "assistant_error"
def stillThinking := "still_thinking"
def thinkingSeconds := "thinking_seconds"
def inputEventId := "input_event_id"

def taskDelegated := "task_delegated"
def delegateInvocation := "delegate_invocation"
def workerSummary := "worker_summary"

def handlerResult := "handler_result"
def scheduledTrigger := "scheduled_trigger"
def scheduledRunSkipped := "scheduled_run_skipped"
def agentMessage := "agent_message"
def slackReply := "slack_reply"

def contextCompacted := "context_compacted"
def contextCompactFailed := "context_compact_failed"
def resumeContextDropped := "resume_context_dropped"
def compactPreTokens := "pre_tokens"
def cloneStart := "clone_start"
def claudeAccountLoginRequired := "claude_account_login_required"
def backendSwitched := "backend_switched"
def modelFallbackNotice := "model_fallback_notice"
def backendOverlayInactive := "backend_overlay_inactive"
def backendOverlayUndeclared := "backend_overlay_undeclared"

def compactBoundary := "compact_boundary"
def compactMetadata := "compact_metadata"
def contextReading := "context_reading"
def contextTokens := "context_tokens"
def contextFull := "context_full"
def contextCompactAt := "context_compact_at"
def usageInputTokens := "input_tokens"
def usageOutputTokens := "output_tokens"
def usageCacheReadInputTokens := "cache_read_input_tokens"
def usageCacheCreationInputTokens := "cache_creation_input_tokens"
def resultTotalCostUsd := "total_cost_usd"

end ET

namespace Event

/-- `event.get("type") == t`. -/
def hasType (ev : Event) (t : String) : Bool := (ev.get "type").isText t

theorem hasType_unique {ev : Event} {t u : String} (ht : ev.hasType t = true)
    (hu : ev.hasType u = true) : t = u := by
  unfold hasType Json.isText at ht hu
  split at ht
  · next s hs =>
    rw [hs] at hu
    rw [← eq_of_beq ht, ← eq_of_beq hu]
  · exact absurd ht Bool.false_ne_true

end Event
