import WhoreIrc.Framework.Cfb
import WhoreIrc.Framework.Chain
import WhoreIrc.Framework.Cmp
import WhoreIrc.Framework.CommonStart
import WhoreIrc.Framework.Digits
import WhoreIrc.Framework.Glob
import WhoreIrc.Framework.Lines
import WhoreIrc.Framework.Linked
import WhoreIrc.Framework.Loop
import WhoreIrc.Framework.Packing
import WhoreIrc.Framework.Records
import WhoreIrc.Framework.Rect
import WhoreIrc.Framework.Run
import WhoreIrc.Framework.Runs
import WhoreIrc.Framework.SortedInsert
import WhoreIrc.Framework.StableSort
import WhoreIrc.Framework.Walk
import WhoreIrc.Impl.Alias
import WhoreIrc.Impl.Arraylist
import WhoreIrc.Impl.Base
import WhoreIrc.Impl.CString
import WhoreIrc.Impl.ConfigFile
import WhoreIrc.Impl.ConfigOption
import WhoreIrc.Impl.Eval
import WhoreIrc.Impl.Exec
import WhoreIrc.Impl.Fifo
import WhoreIrc.Impl.GuiBuffer
import WhoreIrc.Impl.GuiBufferInsert
import WhoreIrc.Impl.GuiColor
import WhoreIrc.Impl.GuiCompletion
import WhoreIrc.Impl.GuiHistory
import WhoreIrc.Impl.GuiHotlist
import WhoreIrc.Impl.GuiInput
import WhoreIrc.Impl.GuiInputComplete
import WhoreIrc.Impl.GuiKey
import WhoreIrc.Impl.GuiLayout
import WhoreIrc.Impl.GuiLine
import WhoreIrc.Impl.GuiNicklist
import WhoreIrc.Impl.GuiWindow
import WhoreIrc.Impl.GuiWindows
import WhoreIrc.Impl.Hashtable
import WhoreIrc.Impl.HashtableInfolist
import WhoreIrc.Impl.HashtableString
import WhoreIrc.Impl.Hook
import WhoreIrc.Impl.HookProcess
import WhoreIrc.Impl.Infolist
import WhoreIrc.Impl.IrcChannelSpeaking
import WhoreIrc.Impl.IrcColor
import WhoreIrc.Impl.IrcMessageParse
import WhoreIrc.Impl.IrcMessageSplit
import WhoreIrc.Impl.IrcMode
import WhoreIrc.Impl.IrcRedirect
import WhoreIrc.Impl.IrcServer
import WhoreIrc.Impl.RelayClient
import WhoreIrc.Impl.RelayWebsocket
import WhoreIrc.Impl.RelayWeechat
import WhoreIrc.Impl.Secure
import WhoreIrc.Impl.SecureTotp
import WhoreIrc.Impl.StringEscape
import WhoreIrc.Impl.StringMatch
import WhoreIrc.Impl.StringReplace
import WhoreIrc.Impl.StringShared
import WhoreIrc.Impl.StringSplit
import WhoreIrc.Impl.Trigger
import WhoreIrc.Impl.UpgradeFile
import WhoreIrc.Impl.Utf8
import WhoreIrc.Impl.Util
import WhoreIrc.Impl.Weelist
import WhoreIrc.Impl.XferDcc
import WhoreIrc.Proof.Alias
import WhoreIrc.Proof.Arraylist
import WhoreIrc.Proof.ArraylistAlloc
import WhoreIrc.Proof.Base
import WhoreIrc.Proof.CString
import WhoreIrc.Proof.ConfigFile
import WhoreIrc.Proof.ConfigOption
import WhoreIrc.Proof.ConfigReload
import WhoreIrc.Proof.EvalCondition
import WhoreIrc.Proof.EvalLevel
import WhoreIrc.Proof.Exec
import WhoreIrc.Proof.Fifo
import WhoreIrc.Proof.GuiBuffer
import WhoreIrc.Proof.GuiBufferInsert
import WhoreIrc.Proof.GuiBufferRenumber
import WhoreIrc.Proof.GuiColorCode
import WhoreIrc.Proof.GuiCompletionNext
import WhoreIrc.Proof.GuiCompletionPartial
import WhoreIrc.Proof.GuiHistory
import WhoreIrc.Proof.GuiHotlist
import WhoreIrc.Proof.GuiInput
import WhoreIrc.Proof.GuiInputComplete
import WhoreIrc.Proof.GuiInputCycle
import WhoreIrc.Proof.GuiInputHistory
import WhoreIrc.Proof.GuiInputWords
import WhoreIrc.Proof.GuiKey
import WhoreIrc.Proof.GuiLayout
import WhoreIrc.Proof.GuiLine
import WhoreIrc.Proof.GuiNicklist
import WhoreIrc.Proof.GuiScreen
import WhoreIrc.Proof.GuiUndo
import WhoreIrc.Proof.GuiWindow
import WhoreIrc.Proof.GuiWindowScroll
import WhoreIrc.Proof.GuiWindowSplit
import WhoreIrc.Proof.GuiWindows
import WhoreIrc.Proof.Hashtable
import WhoreIrc.Proof.HashtableString
import WhoreIrc.Proof.HashtableUpgrade
import WhoreIrc.Proof.HashtableView
import WhoreIrc.Proof.Hook
import WhoreIrc.Proof.HookProcess
import WhoreIrc.Proof.HookProcessRun
import WhoreIrc.Proof.HookRun
import WhoreIrc.Proof.IrcChannelSpeaking
import WhoreIrc.Proof.IrcColor
import WhoreIrc.Proof.IrcIsupport
import WhoreIrc.Proof.IrcMessageParse
import WhoreIrc.Proof.IrcMessageSplit
import WhoreIrc.Proof.IrcMessageSplitJoin
import WhoreIrc.Proof.IrcMessageSplitTable
import WhoreIrc.Proof.IrcModeChannel
import WhoreIrc.Proof.IrcNickPrefix
import WhoreIrc.Proof.IrcRedirect
import WhoreIrc.Proof.IrcRedirectSeam
import WhoreIrc.Proof.IrcServerList
import WhoreIrc.Proof.IrcServerMsgq
import WhoreIrc.Proof.IrcServerNick
import WhoreIrc.Proof.IrcServerSend
import WhoreIrc.Proof.RelayRecv
import WhoreIrc.Proof.RelaySend
import WhoreIrc.Proof.RelaySync
import WhoreIrc.Proof.RelayWebsocket
import WhoreIrc.Proof.RelayWeechat
import WhoreIrc.Proof.Secure
import WhoreIrc.Proof.SecureConfigFile
import WhoreIrc.Proof.SecureRun
import WhoreIrc.Proof.SecureTotp
import WhoreIrc.Proof.SplitText
import WhoreIrc.Proof.StringBuild
import WhoreIrc.Proof.StringCase
import WhoreIrc.Proof.StringChars
import WhoreIrc.Proof.StringCompare
import WhoreIrc.Proof.StringEscape
import WhoreIrc.Proof.StringMatch
import WhoreIrc.Proof.StringReplace
import WhoreIrc.Proof.StringReplaceAll
import WhoreIrc.Proof.StringShared
import WhoreIrc.Proof.StringSplit
import WhoreIrc.Proof.StringSplitCommand
import WhoreIrc.Proof.StringSplitShell
import WhoreIrc.Proof.Trigger
import WhoreIrc.Proof.UpgradeFile
import WhoreIrc.Proof.UpgradeFileRead
import WhoreIrc.Proof.Utf8
import WhoreIrc.Proof.Util
import WhoreIrc.Proof.XferDcc
import WhoreIrc.Proof.XferDccReports
import WhoreIrc.Proof.XferDccRun
import WhoreIrc.Spec.Alias
import WhoreIrc.Spec.ConfigFile
import WhoreIrc.Spec.ConfigOption
import WhoreIrc.Spec.Eval
import WhoreIrc.Spec.Exec
import WhoreIrc.Spec.Fifo
import WhoreIrc.Spec.GuiBuffer
import WhoreIrc.Spec.GuiColorCode
import WhoreIrc.Spec.GuiCompletionPartial
import WhoreIrc.Spec.GuiHistory
import WhoreIrc.Spec.GuiHotlist
import WhoreIrc.Spec.GuiInput
import WhoreIrc.Spec.GuiInputComplete
import WhoreIrc.Spec.GuiKey
import WhoreIrc.Spec.GuiLayout
import WhoreIrc.Spec.GuiLine
import WhoreIrc.Spec.GuiNicklist
import WhoreIrc.Spec.GuiScreen
import WhoreIrc.Spec.GuiUndo
import WhoreIrc.Spec.GuiWindow
import WhoreIrc.Spec.Hashtable
import WhoreIrc.Spec.Hook
import WhoreIrc.Spec.HookProcess
import WhoreIrc.Spec.IrcChannelSpeaking
import WhoreIrc.Spec.IrcColor
import WhoreIrc.Spec.IrcMessageSplitJoin
import WhoreIrc.Spec.IrcMode
import WhoreIrc.Spec.IrcRedirect
import WhoreIrc.Spec.IrcServer
import WhoreIrc.Spec.RelayClient
import WhoreIrc.Spec.RelayWebsocket
import WhoreIrc.Spec.Secure
import WhoreIrc.Spec.SplitText
import WhoreIrc.Spec.StringShared
import WhoreIrc.Spec.Totp
import WhoreIrc.Spec.Trigger
import WhoreIrc.Spec.UpgradeFile
import WhoreIrc.Spec.Utf8
import WhoreIrc.Spec.Util
import WhoreIrc.Spec.XferDcc
