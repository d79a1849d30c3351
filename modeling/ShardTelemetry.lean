import ShardTelemetry.Correlation.Isolation
import ShardTelemetry.IngestPack.RoundTrip
import ShardTelemetry.Loki.Pushdown
import ShardTelemetry.Metric.Budget
import ShardTelemetry.Metric.QueryAnswers
import ShardTelemetry.Metric.Rollup
import ShardTelemetry.PrometheusXor
import ShardTelemetry.Query.Levenshtein
import ShardTelemetry.Query.Pages
import ShardTelemetry.RemoteWrite.CustomBuckets
import ShardTelemetry.Sink.Restart
import ShardTelemetry.Sink.Truncation
import ShardTelemetry.Store.RetryOnce
import ShardTelemetry.Stripe.Conservation
import ShardTelemetry.Stripe.HotSelect
import ShardTelemetry.Tier.LeaseSafety
import ShardTelemetry.Tier.WriterSafety
import ShardTelemetry.Trace.RoundTrip
import ShardTelemetry.Traceql.Compare
import ShardTelemetry.Traceql.Spanset
import ShardTelemetry.Usage.Accounting
