import LeakyChat.Library.Transition
import LeakyChat.Library.Wire
import LeakyChat.MemBuffer
import LeakyChat.Codec
import LeakyChat.Packet
import LeakyChat.CryptoSession
import LeakyChat.E2EPayload
import LeakyChat.Library.Rekey
import LeakyChat.E2ESession
import LeakyChat.E2EAgreement
import LeakyChat.NetworkHandler
import LeakyChat.RecordStream
import LeakyChat.Library.SelectiveReceive
import LeakyChat.Client
import LeakyChat.ClientWaits
import LeakyChat.ClientE2E
import LeakyChat.ClientRun
import LeakyChat.Library.RoundRobin
import LeakyChat.SocketSet
import LeakyChat.SocketMap
import LeakyChat.Server
import LeakyChat.ServerNames
import LeakyChat.ServerRelay
import LeakyChat.Handshake
import LeakyChat.HandshakeAgreement
import LeakyChat.ClientAuthentication
import LeakyChat.HandshakeStream
import LeakyChat.Library.Fifo
import LeakyChat.Library.Objects
import LeakyChat.MemBufferQueue
import LeakyChat.PayloadRelay
import LeakyChat.ReplyNumbers
import LeakyChat.Library.Scan
import LeakyChat.StrictDecoding
import LeakyChat.ServerRegistry
import LeakyChat.E2EParsing
import LeakyChat.ClientReceive
import LeakyChat.Library.WaitFor
import LeakyChat.SetupPair
import LeakyChat.ClientSetup
import LeakyChat.ClientDeadlock
import LeakyChat.SessionStates
import LeakyChat.IncompletePayloads
import LeakyChat.ClientSessions
import LeakyChat.ClientSetupOutcome
import LeakyChat.PreviousKey
import LeakyChat.ReplayedRecords
import LeakyChat.PeerIsolation
import LeakyChat.Library.Wakeup
import LeakyChat.UserInterface
import LeakyChat.RequestLoop
import LeakyChat.ClientQueue
import LeakyChat.SessionNumbers
import LeakyChat.ReplyBytes
import LeakyChat.SubmittedLines
import LeakyChat.HandlerMoves
import LeakyChat.Library.Attempts
import LeakyChat.ConnectionSetter
import LeakyChat.SocketRotation
import LeakyChat.ReceiveBytes
import LeakyChat.ClientScripts
import LeakyChat.ClientMoves
import LeakyChat.ClientPair
import LeakyChat.ChatNetwork
import LeakyChat.ChatAgreement
import LeakyChat.ChatDelivery
import LeakyChat.ChatSetup
import LeakyChat.ChatSessions
import LeakyChat.ClientExit
import LeakyChat.MessageHistory
import LeakyChat.ServerRun
import LeakyChat.HistoryMarks
import LeakyChat.ChatOrder
import LeakyChat.ChatArrival
import LeakyChat.ChatMessages
