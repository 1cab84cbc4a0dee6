import SniperBot.Staking.Supply
import SniperBot.Staking.Exit
import SniperBot.Execution.Recovery
import SniperBot.Execution.Verdict
import SniperBot.Ownership.MemoryFencing
import SniperBot.Ownership.RedisFencing
import SniperBot.Staking.Prefunding
import SniperBot.Positions.Merge
import SniperBot.Orders.Overflow
import SniperBot.Flags.Sync
import SniperBot.GlobalRisk.Count
import SniperBot.Risk.Exposure
import SniperBot.Accounting.Agreement
import SniperBot.Ha.Restart
import SniperBot.Polymarket.Crash
import SniperBot.Polymarket.Observers
import SniperBot.Polymarket.Missing
import SniperBot.Polymarket.Closing
import SniperBot.Polymarket.Backfill
import SniperBot.LimitOrders.HandOff
import SniperBot.Dca.Requests
import SniperBot.Sniper.Dca
import SniperBot.RuntimeRegistry.Displacement
import SniperBot.Billing.Ended
import SniperBot.Billing.Concurrent
import SniperBot.Billing.ExactlyOnce
import SniperBot.Billing.ProviderEvents
import SniperBot.Email.Discipline
import SniperBot.Sniper.Ladder
import SniperBot.TenantConfig.Updates
import SniperBot.TenantConfig.Cache
import SniperBot.Saas.Forwarding
import SniperBot.Venues.CpmmQuote
import SniperBot.Venues.LaunchLabSolvency
import SniperBot.GlobalRisk.KillSwitch
import SniperBot.Staking.Splitting
import SniperBot.Accounting.Profit
import SniperBot.Accounting.Balance
import SniperBot.Accounting.Convergence
import SniperBot.Reconciliation.Money
import SniperBot.Venues.LaunchLabPool
import SniperBot.Billing.PlatformFee
import SniperBot.Venues.CurveMaths
import SniperBot.Accounting.Identity
import SniperBot.Execution.FeePolicy
import SniperBot.Positions.Listing
import SniperBot.Ownership.HaRuntime
import SniperBot.Telegram.TradeSession
