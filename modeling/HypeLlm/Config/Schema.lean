import HypeLlm.Config.Text

/-!
# Record schemas

The record types that a configuration may have, and the fields of each.  Every name in the table is an
identifier of the grammar, so that a name taken from it can be written bare.
-/

namespace HypeLlm.Config

/-- The schema of one record type. -/
structure Schema where
  kind : String
  /-- Fields that must be present. -/
  required : List String
  /-- Fields that may be present. -/
  optional : List String
  deriving Repr, DecidableEq

def Schema.names (s : Schema) : List String := s.required ++ s.optional

def schemas : List Schema := [
  ⟨"settings", [],
     ["inference_listen", "admin_listen", "metrics_listen", "max_body_bytes", "max_head_bytes",
      "allow_generic_adapter", "weighted_tie_break", "max_failure_percent", "default_deadline_ms",
      "max_attempts", "retry_budget_ms", "oidc_issuer", "oidc_client_id",
      "oidc_authorization_endpoint", "oidc_token_endpoint", "oidc_redirect_uri",
      "oidc_hosted_domains", "oidc_verifier_socket", "cors_origins", "session_idle_secs",
      "session_absolute_secs", "tls_helper_socket", "state_dir", "audit_checkpoint_interval",
      "capture_bodies", "keepalive_interval_ms", "slow_client_timeout_ms", "queue_timeout_ms",
      "default_target_queued", "max_connections", "max_requests_per_connection", "read_timeout_ms",
      "keepalive_timeout_ms", "connection_stack_kib", "quota_partitions", "budget_draw_tokens",
      "fleet_enabled", "fleet_state_dir", "fleet_enroll_url", "fleet_access_default",
      "max_documents_per_request", "max_document_bytes", "max_inline_document_bytes",
      "default_document_token_estimate", "activation_effort_headroom_ms", "break_glass_principal",
      "break_glass_tenant", "break_glass_ttl_secs", "anonymous_principal", "anonymous_tenant",
      "anonymous_scopes", "control_socket", "backup_dir", "job_workers", "max_jobs_per_tenant",
      "max_queued_jobs", "max_queued_batch_jobs", "max_job_result_bytes", "job_retention_ms",
      "conversation_affinity_ttl_ms", "conversation_affinity_max_entries", "job_poll_ms",
      "max_job_part_bytes", "max_job_spool_bytes", "max_recovery_waiters", "max_parked_requests",
      "target_probe_interval_ms", "target_probe_timeout_ms"]⟩,
  ⟨"tenant", ["id"],
     ["inherit_global", "status", "residency", "retention_days", "max_cost", "min_quality",
      "payment_message", "payment_url"]⟩,
  ⟨"provider", ["id", "family", "scheme", "host"],
     ["port", "base_path", "credential", "enabled", "egress", "ports", "recovery_wait_ms",
      "machine"]⟩,
  ⟨"target", ["id", "provider", "model"],
     ["aliases", "operations", "capabilities", "modalities", "reasoning_efforts",
      "effort_multipliers", "document_token_estimate", "bytes_per_token", "quality_class",
      "streaming", "tools", "parallel_tools", "json_mode", "structured_output", "reasoning",
      "prompt_caching", "context", "max_output", "embedding_dims", "tokenizer", "cost", "residency",
      "local", "state", "concurrency", "rps", "endpoint", "run_memory_bytes", "class"]⟩,
  ⟨"machine", ["id", "memory_bytes"], ["description"]⟩,
  ⟨"alias", ["id", "targets"],
     ["family_failover", "description", "capability", "dry_multiplier", "repeat_penalty"]⟩,
  ⟨"binding", ["id", "scope"],
     ["model", "prefer", "weight", "deny", "allow", "pin", "fallback", "priority"]⟩,
  ⟨"grant", ["scope"], ["id", "model", "operations", "allow"]⟩,
  ⟨"quota", ["scope"],
     ["id", "input_bytes_per_second", "input_bytes_burst", "output_bytes_per_second",
      "output_bytes_burst", "budget", "budget_period", "operation", "concurrency", "queued", "rps",
      "burst", "tpm", "token_burst", "class", "jobs"]⟩,
  ⟨"role_binding", ["subject", "role"], []⟩,
  ⟨"identity", ["issuer", "subject", "principal", "tenant"], ["description"]⟩,
  ⟨"local_user", ["id", "principal", "tenant", "verifier"], ["description"]⟩,
  ⟨"group", ["id", "tenant"], ["members", "description"]⟩,
  ⟨"credential", ["id"], ["scope", "description", "rotates_after_days"]⟩,
  ⟨"fleet_agent", ["id", "socket"],
     ["observation_interval_ms", "observation_max_age_ms", "request_timeout_ms", "ssh_public_key"]⟩,
  ⟨"host", ["id", "agent", "arch"],
     ["status", "reserved_memory_bytes", "max_concurrent_activations"]⟩,
  ⟨"fleet_grant", ["id", "scope", "host", "model", "allow"], []⟩,
  ⟨"accelerator", ["id", "host", "kind", "memory_bytes"], ["pool"]⟩,
  ⟨"deployment", ["id", "target", "accelerator", "memory_bytes"],
     ["artifact", "start_ms", "stop_ms", "drain_ms", "probe_ms", "readiness", "min_resident_ms",
      "evictable", "pinned", "autostart", "retention_weight", "max_drainable_inflight",
      "force_stop"]⟩,
  ⟨"artifact", ["id", "kind", "arch", "digest"], ["size_bytes", "source", "image_id"]⟩,
  ⟨"fleet_policy", ["scope"],
     ["max_activations_per_hour", "eviction_margin_permille", "max_eviction_set",
      "activation_min_demand", "activation_max_wait_ms", "reactivation_cooldown_ms",
      "flap_window_ms", "max_flap_cooldown_ms", "allow_fetch", "fetch_disk_headroom_bytes",
      "memory_drift_tolerance_permille", "prewarm_min_rate_per_minute", "adopt_unmanaged",
      "idle_stop_ms", "max_reorder_wait_ms"]⟩,
  ⟨"price", ["target"],
     ["input_per_million", "output_per_million", "cached_input_per_million", "currency",
      "effective_from"]⟩]

def schemaFor (kind : String) : Option Schema := schemas.find? fun s => s.kind = kind

theorem schemas_identifiers :
    (schemas.all fun s => isIdentifier s.kind && s.names.all isIdentifier) = true := by
  -- the bytes of a literal are at hand, and its characters are not
  unfold isIdentifier
  simp only [Utf8.encode_toList]
  decide +kernel

/-- The names of a schema are identifiers. -/
theorem isIdentifier_of_schemaFor {kind : String} {s : Schema} (h : schemaFor kind = some s) :
    isIdentifier kind = true ∧ ∀ name ∈ s.names, isIdentifier name = true := by
  unfold schemaFor at h
  have hmem := List.mem_of_find?_eq_some h
  have hkind : s.kind = kind := by simpa using List.find?_some h
  have hall := List.all_eq_true.1 schemas_identifiers s hmem
  rw [Bool.and_eq_true, hkind] at hall
  exact ⟨hall.1, List.all_eq_true.1 hall.2⟩

end HypeLlm.Config
